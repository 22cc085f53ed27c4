import SyntaxTrees.Proofs.Yaml.Native.Plain
import SyntaxTrees.Yaml.Native.Token.Block

/-!
# Literal scalars read back

While a literal scalar is read, a `BlockPart` holds the text so far in three pieces: the lines, the
break behind the last of them, and the breaks of empty lines behind that (`BlockPart.Holds`). Each
character of the written text adds itself to it (`scanBlock_writeLines`), and the mark in the head
of the scalar keeps just the breaks that belong to the text (`BlockPart.Holds.text_eq_ofList`).
-/

namespace SyntaxTrees.Yaml

/-! ## Breaks at the end -/

/-- What is to become of the line breaks at the end of a written scalar that the text does not end
with itself. -/
def chompOf (cs : List Char) : Chomp :=
  match cs.reverse with
  | [] => .strip
  | c :: rest =>
    if !isBreak c then .strip
    else match rest with
      | [] => .keep
      | b :: _ => if isBreak b then .keep else .clip

/-- How the head of a scalar says what becomes of the line breaks at its end. -/
def Chomp.mark : Chomp → List Char
  | .strip => ['-']
  | .clip => []
  | .keep => ['+']

theorem chompMark_eq (cs : List Char) : chompMark cs = (chompOf cs).mark := by
  rw [chompMark, chompOf]
  cases cs.reverse with
  | nil => rfl
  | cons c rest =>
    cases hc : isBreak c with
    | false => simp [hc, Chomp.mark]
    | true =>
      cases rest with
      | nil => simp [hc, Chomp.mark]
      | cons b rest => cases hb : isBreak b <;> simp [hc, hb, Chomp.mark]

/-! ## What has been read -/

namespace BlockPart

/-- The part has read a text: its pieces, one after the other, are the text. A line that is being
read holds something; between lines, either nothing but empty lines has been read, or the last line
has ended. -/
structure Holds (b : BlockPart) (text : List Char) : Prop where
  text_eq : b.emptyLines ++ (b.lineEnd.toList ++ b.kept) = text.reverse
  breaks : ∀ c ∈ b.emptyLines ++ b.lineEnd.toList, isBreak c = true
  in_line : b.inLine = true → b.emptyLines = [] ∧ b.lineEnd = none
  kept_line : b.inLine = true ∨ b.lineEnd.isSome → ∃ c ∈ b.kept.head?, isBreak c = false
  kept_none : b.inLine = false → b.lineEnd = none → b.kept = []

namespace Holds

variable {b : BlockPart} {text : List Char}

/-- A text that does not end with a line break needs none of those behind it. -/
theorem strip (h : b.Holds text) (hline : b.inLine = true) :
    chompOf text = .strip ∧ b.kept = text.reverse := by
  -- within a line nothing is held back, so the text is what was kept
  rcases h.in_line hline with ⟨hempty, hend⟩
  rcases h.kept_line (Or.inl hline) with ⟨c, hc, hbreak⟩
  have htext := h.text_eq
  rw [hempty, hend] at htext
  have hkept : b.kept = text.reverse := htext
  refine ⟨?_, hkept⟩
  rw [hkept] at hc
  -- its last letter is no break
  cases hreverse : text.reverse with
  | nil => simp [hreverse] at hc
  | cons d rest =>
    have hd : d = c := by simpa [hreverse] using hc
    simp [chompOf, hreverse, hd, hbreak]

theorem eq_reverse (h : b.Holds text) :
    text = (b.emptyLines ++ (b.lineEnd.toList ++ b.kept)).reverse := by
  rw [h.text_eq, List.reverse_reverse]

/-- Of a single break behind a line, the first is kept without a mark. -/
theorem clip (h : b.Holds text) (hempty : b.emptyLines = []) {e : Char} (hend : b.lineEnd = some e) :
    chompOf text = .clip := by
  have he : isBreak e = true := h.breaks e (by simp [hend])
  rcases h.kept_line (Or.inr (by simp [hend])) with ⟨c, hc, hbreak⟩
  have htext := h.eq_reverse
  cases hkept : b.kept with
  | nil => simp [hkept] at hc
  | cons d rest =>
    have hd : d = c := by simpa [hkept] using hc
    rw [hempty, hend, hkept] at htext
    simp [chompOf, htext, he, hd, hbreak]

/-- Behind the last empty line there is nothing or another break. -/
theorem keep (h : b.Holds text) (hline : b.inLine = false) (hempty : b.emptyLines ≠ []) :
    chompOf text = .keep := by
  rcases List.exists_cons_of_ne_nil hempty with ⟨e, more, hlines⟩
  have hbreaks := h.breaks
  have he : isBreak e = true := hbreaks e (by simp [hlines])
  have htext := h.eq_reverse
  rw [hlines] at htext
  -- two breaks at the end at least: one more, or the end of the line
  cases hrest : more ++ (b.lineEnd.toList ++ b.kept) with
  | nil => simp [chompOf, htext, hrest, he]
  | cons d rest =>
    have hd : isBreak d = true := by
      cases more with
      | cons f more =>
        have hdf : f = d := by simpa using congrArg List.head? hrest
        exact hbreaks d (by simp [hlines, hdf])
      | nil =>
        cases hend : b.lineEnd with
        | some f =>
          have hdf : f = d := by simpa [hend] using congrArg List.head? hrest
          exact hbreaks d (by simp [hend, hdf])
        | none => simp [hend, h.kept_none hline hend] at hrest
    simp [chompOf, htext, hrest, he, hd]

/-- Between lines, the mark for the text keeps what the text ends with. -/
theorem text_eq_ofList (h : b.Holds text) (hline : b.inLine = false) :
    b.text (chompOf text) = .ofList text := by
  have htext := h.eq_reverse
  by_cases hempty : b.emptyLines = []
  · rw [hempty, List.nil_append] at htext
    cases hend : b.lineEnd with
    | none =>
      -- nothing has been read
      have hkept := h.kept_none hline hend
      rw [hend, hkept] at htext
      subst htext
      simp [chompOf, BlockPart.text, hkept]
    | some e =>
      rw [h.clip hempty hend, BlockPart.text, htext]
  · rw [h.keep hline hempty, BlockPart.text, htext]

/-! One more character of the text, in each of the places where it can stand. -/

theorem endLine (h : b.Holds text) (hline : b.inLine = true) {c : Char} (hc : isBreak c = true) :
    { b with lineEnd := some c, inLine := false }.Holds (text ++ [c]) := by
  rcases h.in_line hline with ⟨hempty, hend⟩
  have htext := h.text_eq
  rw [hempty, hend] at htext
  refine ⟨?_, ?_, Bool.noConfusion, fun _ => h.kept_line (Or.inl hline),
    fun _ hnone => absurd hnone (Option.some_ne_none c)⟩
  · simpa [hempty] using htext
  · simpa [hempty] using hc

theorem inLine (h : b.Holds text) (hline : b.inLine = true) {c : Char} (hc : isBreak c = false) :
    { b with kept := c :: b.kept }.Holds (text ++ [c]) := by
  rcases h.in_line hline with ⟨hempty, hend⟩
  have htext := h.text_eq
  rw [hempty, hend] at htext
  refine ⟨?_, h.breaks, fun _ => ⟨hempty, hend⟩, fun _ => ⟨c, rfl, hc⟩, fun hno => ?_⟩
  · simpa [hempty, hend] using htext
  · rw [hline] at hno
    cases hno

theorem emptyLine (h : b.Holds text) (hline : b.inLine = false) {c : Char} (hc : isBreak c = true)
    (widest : Nat) :
    { b with widest, emptyLines := c :: b.emptyLines }.Holds (text ++ [c]) := by
  refine ⟨?_, ?_, fun hyes => ?_, h.kept_line, h.kept_none⟩
  · simpa using h.text_eq
  · simpa [hc] using h.breaks
  · rw [hline] at hyes
    cases hyes

theorem startLine (h : b.Holds text) {c : Char} (hc : isBreak c = false) (indent : Nat) :
    ({ b with indent }.startLine .literal c).Holds (text ++ [c]) := by
  refine ⟨?_, ?_, fun _ => ⟨rfl, rfl⟩, fun _ => ⟨c, rfl, hc⟩, Bool.noConfusion⟩
  · simpa [BlockPart.startLine] using h.text_eq
  · simp [BlockPart.startLine]

end Holds

end BlockPart

/-! ## Lines -/

section Lines

variable (chomp : Chomp) (least : Nat) {b : BlockPart} {m : Mark}

/-- A line ends. -/
theorem scanBlock_endLine (hline : b.inLine = true) {c : Char} (hbreak : isBreak c = true)
    (rest : List Char) :
    scanBlock .literal chomp least (c :: rest) m b =
      scanBlock .literal chomp least rest (m.after c)
        { b with lineEnd := some c, inLine := false } := by
  rw [scanBlock, hline, if_pos rfl, if_pos hbreak]

/-- A line goes on. -/
theorem scanBlock_inLine (hline : b.inLine = true) {c : Char} (hbreak : isBreak c = false)
    (rest : List Char) :
    scanBlock .literal chomp least (c :: rest) m b =
      scanBlock .literal chomp least rest (m.after c) { b with kept := c :: b.kept } := by
  rw [scanBlock, hline, if_pos rfl, hbreak, if_neg Bool.false_ne_true]

/-- An empty line is passed over. -/
theorem scanBlock_emptyLine (hline : b.inLine = false) {c : Char} (hbreak : isBreak c = true)
    (rest : List Char) :
    scanBlock .literal chomp least (c :: rest) m b =
      scanBlock .literal chomp least rest (m.after c)
        { b with widest := max b.widest m.column, emptyLines := c :: b.emptyLines } := by
  rw [scanBlock, hline]
  simp [ne_blank_of_isBreak hbreak, hbreak]

/-- The indentation is passed over. -/
theorem scanBlock_spaces (hline : b.inLine = false) (n : Nat)
    (hindent : b.indent = 0 ∨ m.column + n ≤ b.indent) (rest : List Char) :
    ∃ m' : Mark, m'.column = m.column + n ∧
      scanBlock .literal chomp least (spaces n ++ rest) m b =
        scanBlock .literal chomp least rest m' b := by
  induction n generalizing m with
  | zero => exact ⟨m, rfl, rfl⟩
  | succ n ih =>
    have hafter := column_after isBreak_space m
    -- columns to the left of the indent are passed over
    rcases ih (m := m.after ' ') (by omega) with ⟨m', hcol, hscan⟩
    refine ⟨m', by omega, ?_⟩
    have hin : b.inIndent m = true := by
      rcases hindent with hzero | hle
      · simp [BlockPart.inIndent, hzero]
      · simp [BlockPart.inIndent, show m.column < b.indent by omega]
    rw [spaces, List.replicate_succ, List.cons_append, ← spaces, scanBlock, hline, hin]
    simpa using hscan

/-- A line starts where the indentation ends. -/
theorem scanBlock_startLine (hline : b.inLine = false) {c : Char} (hbreak : isBreak c = false)
    (hprintable : isPrintable c = true) (hspace : c = ' ' → b.inIndent m = false)
    (hcol : b.settledIndent least m = m.column) (rest : List Char) :
    scanBlock .literal chomp least (c :: rest) m b =
      scanBlock .literal chomp least rest (m.after c)
        ({ b with indent := m.column }.startLine .literal c) := by
  have htab := ne_tab_of_isPrintable hprintable
  have hskip : (c = ' ' && b.inIndent m) = false := by
    by_cases hc : c = ' '
    · simp [hspace hc]
    · simp [hc]
  rw [scanBlock, hline, hskip]
  simp [htab, hbreak, hcol]

/-- The scalar ends before a token that is not indented far enough. -/
theorem scanBlock_end (hline : b.inLine = false) {k : Nat} (hk : m.column + k < b.indent)
    {tail : List Char} (htail : LeadsToToken tail) :
    ∃ m' : Mark, m'.column = m.column + k ∧
      scanBlock .literal chomp least (spaces k ++ tail) m b = some ⟨b.text chomp, m', tail⟩ := by
  rcases scanBlock_spaces chomp least hline k (Or.inr (Nat.le_of_lt hk)) tail with ⟨m', hcol, hscan⟩
  refine ⟨m', hcol, hscan.trans ?_⟩
  -- what follows stands to the left of the block, so the block has ended
  cases tail with
  | nil => rfl
  | cons c tail =>
    rcases isGap_eq_false_iff.mp (htail c rfl).1 with ⟨hbreak, hblank⟩
    have hsettled : b.settledIndent least m' = b.indent := if_neg (by omega)
    have hne : m'.column ≠ b.indent := by omega
    rw [scanBlock, hline]
    simp [hblank, hbreak, hsettled, hne]

/-- One more character of the text, with the indentation before it if it starts a line, is read as
that character. -/
theorem scanBlock_writeChar {read : List Char} (h : b.Holds read) (hindent : b.indent ≠ 0)
    (hcol : b.inLine = false → m.column = 0) {c : Char} (hprintable : isPrintable c = true)
    (cs rest : List Char) :
    ∃ (b' : BlockPart) (m' : Mark), b'.Holds (read ++ [c]) ∧ b'.indent = b.indent ∧
      (b'.inLine = false → m'.column = 0) ∧
      scanBlock .literal chomp least
          (writeLines (spaces b.indent) (!b.inLine) (c :: cs) ++ rest) m b =
        scanBlock .literal chomp least
          (writeLines (spaces b.indent) (!b'.inLine) cs ++ rest) m' b' := by
  cases hline : b.inLine with
  | true =>
    cases hbreak : isBreak c with
    | true =>
      refine ⟨{ b with lineEnd := some c, inLine := false }, m.after c, h.endLine hline hbreak, rfl,
        fun _ => column_after_break hbreak m, ?_⟩
      rw [writeLines, if_pos hbreak, List.cons_append, scanBlock_endLine _ _ hline hbreak]
      rfl
    | false =>
      refine ⟨{ b with kept := c :: b.kept }, m.after c, h.inLine hline hbreak, rfl,
        fun hno => by simp [hline] at hno, ?_⟩
      rw [writeLines, hbreak, Bool.not_true, if_neg Bool.false_ne_true, if_neg Bool.false_ne_true,
        List.nil_append, List.cons_append, scanBlock_inLine _ _ hline hbreak, hline]
      rfl
  | false =>
    cases hbreak : isBreak c with
    | true =>
      refine ⟨{ b with widest := max b.widest m.column, emptyLines := c :: b.emptyLines }, m.after c,
        h.emptyLine hline hbreak _, rfl, fun _ => column_after_break hbreak m, ?_⟩
      rw [writeLines, if_pos hbreak, List.cons_append, scanBlock_emptyLine _ _ hline hbreak, hline]
      rfl
    | false =>
      -- the indentation comes first
      obtain ⟨m', hm', hpad⟩ := scanBlock_spaces chomp least hline (m := m) b.indent
        (Or.inr (by rw [hcol hline]; omega))
        (c :: (writeLines (spaces b.indent) false cs ++ rest))
      have hcolumn : m'.column = b.indent := by rw [hm', hcol hline, Nat.zero_add]
      have hwrite : writeLines (spaces b.indent) (!false) (c :: cs) ++ rest =
          spaces b.indent ++ c :: (writeLines (spaces b.indent) false cs ++ rest) := by
        simp [writeLines, hbreak]
      refine ⟨{ b with indent := m'.column }.startLine .literal c, m'.after c, h.startLine hbreak _,
        hcolumn, Bool.noConfusion, ?_⟩
      rw [hwrite, hpad, scanBlock_startLine _ _ hline hbreak hprintable]
      · rfl
      · exact fun _ => by simp [BlockPart.inIndent, hcolumn, hindent]
      · rw [BlockPart.settledIndent, if_neg hindent, hcolumn]

/-- The end of the last line, if the text does not hold it, is left out of what is read. -/
theorem scanBlock_writeEnd {k : Nat} (hk : k < b.indent) {tail : List Char}
    (htail : LeadsToToken tail) {read : List Char} (h : b.Holds read)
    (hcol : b.inLine = false → m.column = 0) :
    ∃ m' : Mark, m'.column = k ∧
      scanBlock .literal (chompOf read) least
          (writeLines (spaces b.indent) (!b.inLine) [] ++ (spaces k ++ tail)) m b =
        some ⟨.ofList read, m', tail⟩ := by
  -- the last line has no break of its own: one is written and stripped
  cases hline : b.inLine with
  | true =>
    rcases h.strip hline with ⟨hchomp, hkept⟩
    have hzero : (m.after '\n').column = 0 := rfl
    obtain ⟨m', hm', hscan⟩ := scanBlock_end (b := { b with lineEnd := some '\n', inLine := false })
      (chompOf read) least rfl (m := m.after '\n') (by rw [hzero, Nat.zero_add]; exact hk) htail
    refine ⟨m', by rw [hm', hzero, Nat.zero_add], ?_⟩
    rw [Bool.not_true, writeLines, if_neg Bool.false_ne_true, List.singleton_append,
      scanBlock_endLine _ _ hline (by decide), hscan, hchomp, BlockPart.text, hkept,
      List.reverse_reverse]
  -- it ends with a break: nothing is to be added
  | false =>
    obtain ⟨m', hm', hscan⟩ := scanBlock_end (chompOf read) least hline (m := m) (k := k)
      (by rw [hcol hline, Nat.zero_add]; exact hk) htail
    refine ⟨m', by rw [hm', hcol hline, Nat.zero_add], ?_⟩
    rw [Bool.not_false, writeLines, if_pos rfl, List.nil_append, hscan, h.text_eq_ofList hline]

/-- From where the indentation is known, the lines are read as they were written, up to a line that
is not indented far enough. -/
theorem scanBlock_writeLines {k : Nat} (hk : k < b.indent) {tail : List Char}
    (htail : LeadsToToken tail) {read cs : List Char} (h : b.Holds read)
    (hcs : ∀ c ∈ cs, isPrintable c = true) (hcol : b.inLine = false → m.column = 0) :
    ∃ m' : Mark, m'.column = k ∧
      scanBlock .literal (chompOf (read ++ cs)) least
          (writeLines (spaces b.indent) (!b.inLine) cs ++ (spaces k ++ tail)) m b =
        some ⟨.ofList (read ++ cs), m', tail⟩ := by
  induction cs generalizing b m read with
  | nil =>
    rw [List.append_nil]
    exact scanBlock_writeEnd least hk htail h hcol
  | cons c cs ih =>
    -- one letter, then the lines that are left
    obtain ⟨b', m₁, hholds, hindent, hstart, hchar⟩ := scanBlock_writeChar
      (chompOf (read ++ c :: cs)) least h (Nat.ne_zero_of_lt hk) hcol (hcs c List.mem_cons_self) cs
      (spaces k ++ tail)
    obtain ⟨m', hm', hscan⟩ := ih (b := b') (by rw [hindent]; exact hk) hholds
      (fun d hd => hcs d (List.mem_cons_of_mem _ hd)) hstart
    refine ⟨m', hm', hchar.trans ?_⟩
    rw [← hindent, ← List.singleton_append, ← List.append_assoc]
    exact hscan

end Lines

/-! ## The whole scalar -/

/-- The first line does not show how far the lines are indented. -/
def hidesIndent (cs : List Char) : Bool := cs.head?.any fun c => isSpace c || isBreak c

theorem scanHead_marks (cs rest : List Char) :
    scanHead (indentMark cs ++ chompMark cs ++ '\n' :: rest) =
      some ((chompOf cs, if hidesIndent cs then indentStep else 0), '\n' :: rest) := by
  have hindent : indentMark cs = if hidesIndent cs then ['2'] else [] := rfl
  rw [hindent, chompMark_eq]
  cases hidesIndent cs <;> cases chompOf cs <;> rfl

theorem BlockPart.holds_nil (indent : Nat) : BlockPart.Holds { indent } [] :=
  ⟨rfl, by simp, Bool.noConfusion, by simp, fun _ _ => rfl⟩

/-- A literal scalar is read as it was written, up to a line that is not indented far enough. -/
theorem scanBlock_literal {column least k : Nat} (hcolumn : 1 ≤ column) (hleast : least ≤ column)
    (hk : k < column) {tail : List Char} (htail : LeadsToToken tail) {cs : List Char}
    (hne : cs ≠ []) (hcs : ∀ c ∈ cs, isPrintable c = true) {m : Mark} (hcol : m.column = 0) :
    ∃ m' : Mark, m'.column = k ∧
      scanBlock .literal (chompOf cs) least
          (writeLines (spaces column) true cs ++ (spaces k ++ tail)) m
          { indent := if hidesIndent cs then column else 0 } =
        some ⟨.ofList cs, m', tail⟩ := by
  cases hhides : hidesIndent cs with
  | true =>
    exact scanBlock_writeLines least (b := { indent := column }) hk htail
      (BlockPart.holds_nil column) hcs (fun _ => hcol)
  | false =>
    rcases List.exists_cons_of_ne_nil hne with ⟨c, cs, rfl⟩
    have hhead : isSpace c = false ∧ isBreak c = false := by
      simpa [hidesIndent] using hhides
    have hspace : c ≠ ' ' := by simpa [isSpace] using hhead.1
    -- the first line settles the indentation
    obtain ⟨m₁, hm₁, hpad⟩ := scanBlock_spaces (chompOf (c :: cs)) least (b := { indent := 0 }) rfl
      (m := m) column (Or.inl rfl)
      (c :: (writeLines (spaces column) false cs ++ (spaces k ++ tail)))
    have hindent : m₁.column = column := by rw [hm₁, hcol, Nat.zero_add]
    have hsettled : BlockPart.settledIndent { indent := 0 } least m₁ = m₁.column := by
      simp only [BlockPart.settledIndent, if_true]
      omega
    obtain ⟨m', hm', hscan⟩ := scanBlock_writeLines least
      (b := BlockPart.startLine { indent := column } .literal c) (m := m₁.after c) hk htail
      ((BlockPart.holds_nil column).startLine hhead.2 column)
      (fun d hd => hcs d (List.mem_cons_of_mem _ hd)) Bool.noConfusion
    have hwrite : writeLines (spaces column) true (c :: cs) ++ (spaces k ++ tail) =
        spaces column ++ c :: (writeLines (spaces column) false cs ++ (spaces k ++ tail)) := by
      simp [writeLines, hhead.2]
    refine ⟨m', hm', ?_⟩
    rw [hwrite, if_neg Bool.false_ne_true, hpad, scanBlock_startLine _ _ rfl hhead.2
      (hcs c List.mem_cons_self) (fun h => absurd h hspace) hsettled, hindent]
    exact hscan

end SyntaxTrees.Yaml
