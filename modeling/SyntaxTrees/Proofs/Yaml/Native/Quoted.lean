import Mathlib.Tactic.SplitIfs
import SyntaxTrees.Proofs.Yaml.Native.Gap
import SyntaxTrees.Yaml.Native.Token.Flow

/-!
# Quoted scalars read back

What is written between apostrophes is read as the same text if no space stands beside a line break
in it (`scanSingle_writeSingle`), and what is written between quotation marks is read as the same
text whatever it holds (`scanDouble_writeDouble`). Both follow the text character by character, for
any text read before and any gap behind it.
-/

namespace SyntaxTrees.Yaml

/-! ## Between apostrophes -/

theorem scanSingle_quote {rest : List Char} (h : rest.head? ≠ some '\'') (m : Mark) (gap : Gap)
    (kept : List Char) :
    scanSingle ('\'' :: rest) m gap kept =
      some ⟨.ofList (gap.onto kept).reverse, m.right 1, rest⟩ := by
  rw [scanSingle]
  · rw [if_pos rfl]
  · rintro rest' - rfl
    exact h rfl

theorem scanSingle_gap {c : Char} (h : isGap c = true) (rest : List Char) (m : Mark) (gap : Gap)
    (kept : List Char) :
    scanSingle (c :: rest) m gap kept = scanSingle rest (m.after c) (gap.add c) kept := by
  have hquote : c ≠ '\'' := by
    rintro rfl
    revert h
    decide
  rw [scanSingle]
  · rw [if_neg hquote, if_pos h]
  · rintro rest' rfl
    exact absurd rfl hquote

theorem scanSingle_char {c : Char} (h : isGap c = false) (hquote : c ≠ '\'') (rest : List Char)
    {m : Mark} (hcol : m.column ≠ 0) (gap : Gap) (kept : List Char) :
    scanSingle (c :: rest) m gap kept =
      scanSingle rest (m.after c) .none (c :: gap.onto kept) := by
  have hdelimiter : atDelimiter m (c :: rest) = false := by
    simp [atDelimiter, hcol]
  rw [scanSingle]
  · rw [if_neg hquote, h, hdelimiter]
    rfl
  · rintro rest' rfl
    exact absurd rfl hquote

/-- The indentation of a line means nothing behind a line break. -/
theorem scanSingle_spaces (n : Nat) (rest : List Char) (m : Mark) (first : Option Char)
    (more kept : List Char) :
    ∃ m' : Mark, m'.column = m.column + n ∧
      scanSingle (spaces n ++ rest) m (.breaks first more) kept =
        scanSingle rest m' (.breaks first more) kept := by
  induction n generalizing m with
  | zero => exact ⟨m, rfl, rfl⟩
  | succ n ih =>
    -- the break before the spaces hides them
    rcases ih (m.after ' ') with ⟨m', hcol, hscan⟩
    refine ⟨m', ?_, ?_⟩
    · rw [hcol, column_after isBreak_space]
      omega
    · rw [spaces, List.replicate_succ, List.cons_append, scanSingle_gap isGap_space, ← spaces]
      exact hscan

/-- The indentation at the start of a line leads behind the first column. -/
theorem scanSingle_indent {n : Nat} (hn : n ≠ 0) {gap : Gap} {m : Mark}
    (hcol : gap.hasBreak = false → m.column ≠ 0) (rest kept : List Char) :
    ∃ m' : Mark, m'.column ≠ 0 ∧
      scanSingle ((if gap.hasBreak then spaces n else []) ++ rest) m gap kept =
        scanSingle rest m' gap kept := by
  cases gap with
  | none => exact ⟨m, hcol rfl, rfl⟩
  | blanks bs => exact ⟨m, hcol rfl, rfl⟩
  | breaks first more =>
    rcases scanSingle_spaces n rest m first more kept with ⟨m', hm', hscan⟩
    exact ⟨m', by omega, hscan⟩

/-- What is written for a character of a word adds the character to what has been read. -/
theorem scanSingle_word {c : Char} (h : isGap c = false) (rest : List Char) {m : Mark}
    (hcol : m.column ≠ 0) (gap : Gap) (kept : List Char) :
    ∃ m' : Mark, m'.column ≠ 0 ∧
      scanSingle ((if c = '\'' then ['\'', '\''] else [c]) ++ rest) m gap kept =
        scanSingle rest m' .none (c :: gap.onto kept) := by
  have hbreak := (isGap_eq_false_iff.mp h).1
  by_cases hquote : c = '\''
  · subst hquote
    exact ⟨m.right 2, Nat.succ_ne_zero _, rfl⟩
  · refine ⟨m.after c, ?_, ?_⟩
    · rw [column_after hbreak]
      exact Nat.succ_ne_zero _
    · rw [if_neg hquote, List.singleton_append, scanSingle_char h hquote _ hcol]

/-- A space does not start a line, so that nothing is written before it. -/
theorem writeSingle_gap {c : Char} (hprintable : isPrintable c = true) (hgap : isGap c = true)
    {cs : List Char} {gap : Gap} (hadmits : gap.Admits (c :: cs)) (pad : List Char) :
    writeSingle pad gap.hasBreak (c :: cs) = c :: writeSingle pad (isBreak c) cs := by
  rw [writeSingle]
  cases hc : isBreak c with
  | true => rfl
  -- a space after a break would not have been admitted
  | false =>
    have hspace : isSpace c = true := by rw [← isGap_of_isPrintable hprintable hc, hgap]
    have hquote : c ≠ '\'' := by
      rintro rfl
      cases hgap
    have hno : gap.hasBreak = false := by
      cases gap with
      | breaks first more => simp [Gap.Admits, hspace] at hadmits
      | _ => rfl
    simp [hno, hquote]

/-- Behind a gap that admits the text, the text is read as it was written. -/
theorem scanSingle_writeSingle {n : Nat} (hn : n ≠ 0) {rest : List Char}
    (hrest : rest.head? ≠ some '\'') {cs : List Char} (h : IsSpaced cs) {gap : Gap}
    (hgap : gap.Admits cs) {m : Mark} (hcol : gap.hasBreak = false → m.column ≠ 0)
    (kept : List Char) :
    ∃ m', scanSingle (writeSingle (spaces n) gap.hasBreak cs ++ rest) m gap kept =
      some ⟨.ofList ((gap.onto kept).reverse ++ cs), m', rest⟩ := by
  induction cs generalizing gap kept m with
  | nil =>
    rcases scanSingle_indent hn hcol ('\'' :: rest) kept with ⟨m', -, hscan⟩
    refine ⟨m'.right 1, ?_⟩
    rw [writeSingle, List.append_assoc, List.singleton_append, hscan, scanSingle_quote hrest,
      List.append_nil]
  | cons c cs ih =>
    have hprintable := h.printable c List.mem_cons_self
    cases hisgap : isGap c with
    | true =>
      rcases h.admits_add hisgap hgap with ⟨hadmits, hbreak, honto⟩
      have hcol' : (gap.add c).hasBreak = false → (m.after c).column ≠ 0 := by
        intro hno
        rw [column_after (hbreak.symm.trans hno)]
        exact Nat.succ_ne_zero _
      rcases ih h.tail hadmits hcol' kept with ⟨m', hscan⟩
      refine ⟨m', ?_⟩
      rw [writeSingle_gap hprintable hisgap hgap, ← hbreak, List.cons_append, scanSingle_gap hisgap,
        hscan, honto, List.reverse_cons, List.append_assoc, List.singleton_append]
    | false =>
      have hbreak := (isGap_eq_false_iff.mp hisgap).1
      -- a word may start a line, behind the indentation
      obtain ⟨m₁, hm₁, hindent⟩ := scanSingle_indent hn hcol
        ((if c = '\'' then ['\'', '\''] else [c]) ++
          (writeSingle (spaces n) Gap.none.hasBreak cs ++ rest)) kept
      obtain ⟨m₂, hm₂, hword⟩ := scanSingle_word hisgap
        (writeSingle (spaces n) Gap.none.hasBreak cs ++ rest) hm₁ gap kept
      have hadmits : Gap.none.Admits cs := trivial
      rcases ih h.tail hadmits (fun _ => hm₂) (c :: gap.onto kept) with ⟨m', hscan⟩
      have hwrite : writeSingle (spaces n) gap.hasBreak (c :: cs) ++ rest =
          (if gap.hasBreak then spaces n else []) ++ ((if c = '\'' then ['\'', '\''] else [c]) ++
            (writeSingle (spaces n) Gap.none.hasBreak cs ++ rest)) := by
        rw [writeSingle, hbreak]
        simp [Gap.hasBreak]
      refine ⟨m', ?_⟩
      rw [hwrite, hindent, hword, hscan]
      simp [Gap.onto]

/-! ## Between quotation marks -/

theorem scanDouble_space (rest : List Char) (m : Mark) (gap : Gap) (kept : List Char) :
    scanDouble (' ' :: rest) m .none gap kept =
      scanDouble rest (m.after ' ') .none (gap.add ' ') kept := by
  rw [scanDouble, if_neg (by decide), if_pos isGap_space]

theorem scanDouble_char {c : Char} (h : isGap c = false) (hquote : c ≠ '"') (hescape : c ≠ '\\')
    (rest : List Char) {m : Mark} (hcol : m.column ≠ 0) (gap : Gap) (kept : List Char) :
    scanDouble (c :: rest) m .none gap kept =
      scanDouble rest (m.after c) .none .none (c :: gap.onto kept) := by
  have hdelimiter : atDelimiter m (c :: rest) = false := by
    simp [atDelimiter, hcol]
  rw [scanDouble, if_neg hquote, h, hdelimiter, if_neg Bool.false_ne_true,
    if_neg Bool.false_ne_true, if_neg hescape]

theorem scanDouble_backslash (rest : List Char) {m : Mark} (hcol : m.column ≠ 0) (gap : Gap)
    (kept : List Char) :
    scanDouble ('\\' :: rest) m .none gap kept =
      scanDouble rest (m.after '\\') .opened .none (gap.onto kept) := by
  have hdelimiter : atDelimiter m ('\\' :: rest) = false := by
    simp [atDelimiter, hcol]
  rw [scanDouble, if_neg (by decide), if_neg (by decide), hdelimiter, if_neg Bool.false_ne_true,
    if_pos rfl]

/-- The letter that is written for a character is read as that character. -/
theorem escapeLetter?_spec {c e : Char} (h : escapeLetter? c = some e) :
    isBreak e = false ∧ escapeWidth? e = none ∧ unescapeLetter? e = some c := by
  unfold escapeLetter? at h
  split at h <;> rename_i hnumber <;> cases h
  all_goals
    rw [← Char.ofNat_toNat c, hnumber]
    decide

theorem hexDigit?_upperDigit {k : Nat} (h : k < 16) :
    Text.hexDigit? k.digitChar.toUpper = some k ∧ isBreak k.digitChar.toUpper = false := by
  have hall : ∀ k : Fin 16, Text.hexDigit? k.val.digitChar.toUpper = some k.val ∧
      isBreak k.val.digitChar.toUpper = false := by decide
  exact hall ⟨k, h⟩

/-- Digits add to the number that is being read, as long as more of them are missing. -/
theorem scanDouble_digits {more : Nat} (hmore : 0 < more) (width : Nat) {n : Nat}
    (hn : n < Nat.pow 16 width) (number : Nat) (rest : List Char) (m : Mark) (kept : List Char) :
    ∃ m' : Mark, m.column ≤ m'.column ∧
      scanDouble (Text.upperHex width n ++ rest) m (.digits (width + more) number) .none kept =
        scanDouble rest m' (.digits more (number * Nat.pow 16 width + n)) .none kept := by
  induction width generalizing n more rest with
  -- no digit is left
  | zero =>
    have hzero : n = 0 := Nat.lt_one_iff.mp hn
    subst hzero
    exact ⟨m, Nat.le_refl _, by simp [Text.upperHex]⟩
  | succ width ih =>
    -- the high digits by the hypothesis, then the lowest
    have hpow : Nat.pow 16 (width + 1) = Nat.pow 16 width * 16 := rfl
    have hhigh : n / 16 < Nat.pow 16 width := Nat.div_lt_of_lt_mul (by rwa [hpow, Nat.mul_comm] at hn)
    rcases hexDigit?_upperDigit (Nat.mod_lt n (by decide : 0 < 16)) with ⟨hdigit, hbreak⟩
    obtain ⟨m', hle, hscan⟩ := ih (Nat.succ_pos more) hhigh
      ((n % 16).digitChar.toUpper :: rest)
    refine ⟨m'.after (n % 16).digitChar.toUpper, ?_, ?_⟩
    · rw [column_after hbreak]
      omega
    · have hsteps : width + 1 + more = width + (more + 1) := by omega
      have hnumber : (number * Nat.pow 16 width + n / 16) * 16 + n % 16 =
          number * Nat.pow 16 (width + 1) + n := by
        rw [hpow, Nat.add_mul, Nat.mul_assoc]
        omega
      rw [Text.upperHex, List.append_assoc, List.singleton_append, hsteps, hscan, scanDouble]
      simp only [hdigit]
      rw [if_pos (by omega), hnumber]
      rfl

theorem charOf?_toNat (c : Char) : charOf? c.toNat = some c := by
  have hvalid : c.toNat.isValidChar := c.valid
  rw [charOf?, if_pos hvalid, Char.ofNat_toNat]

/-- The last digit completes the number of a character. -/
theorem scanDouble_number {c : Char} {width : Nat} (hc : c.toNat < Nat.pow 16 (width + 1))
    (rest : List Char) (m : Mark) (kept : List Char) :
    ∃ m' : Mark, m.column ≤ m'.column ∧
      scanDouble (Text.upperHex (width + 1) c.toNat ++ rest) m (.digits (width + 1) 0) .none kept =
        scanDouble rest m' .none .none (c :: kept) := by
  have hhigh : c.toNat / 16 < Nat.pow 16 width :=
    Nat.div_lt_of_lt_mul (by rwa [Nat.mul_comm])
  -- the lowest digit completes the character
  rcases hexDigit?_upperDigit (Nat.mod_lt c.toNat (by decide : 0 < 16)) with ⟨hdigit, hbreak⟩
  obtain ⟨m', hle, hscan⟩ := scanDouble_digits Nat.one_pos width hhigh 0
    ((c.toNat % 16).digitChar.toUpper :: rest) m kept
  have hnumber : (0 * Nat.pow 16 width + c.toNat / 16) * 16 + c.toNat % 16 = c.toNat := by
    rw [Nat.zero_mul]
    omega
  refine ⟨m'.after (c.toNat % 16).digitChar.toUpper, ?_, ?_⟩
  · rw [column_after hbreak]
    omega
  · rw [Text.upperHex, List.append_assoc, List.singleton_append, hscan, scanDouble]
    simp only [hdigit]
    rw [if_neg (by omega), hnumber, charOf?_toNat]

/-- An escape with a number is read as the character with that number. -/
theorem scanDouble_numbered {c letter : Char} {width : Nat}
    (hletter : isBreak letter = false ∧ escapeWidth? letter = some (width + 1))
    (hc : c.toNat < Nat.pow 16 (width + 1)) (rest : List Char) (m : Mark) (kept : List Char) :
    ∃ m' : Mark, m.column ≤ m'.column ∧
      scanDouble (letter :: Text.upperHex (width + 1) c.toNat ++ rest) m .opened .none kept =
        scanDouble rest m' .none .none (c :: kept) := by
  rcases hletter with ⟨hbreak, hwidth⟩
  rcases scanDouble_number hc rest (m.after letter) kept with ⟨m', hle, hscan⟩
  refine ⟨m', ?_, ?_⟩
  · rw [column_after hbreak] at hle
    omega
  · rw [List.cons_append, scanDouble, hbreak, if_neg Bool.false_ne_true, hwidth]
    exact hscan

/-- Whatever spelling is chosen for a character, it is read as that character. -/
theorem scanDouble_escapeChar (c : Char) (rest : List Char) {m : Mark} (hcol : m.column ≠ 0)
    (gap : Gap) (kept : List Char) :
    ∃ m' : Mark, m'.column ≠ 0 ∧
      scanDouble (escapeChar c ++ rest) m .none gap kept =
        scanDouble rest m' .none .none (c :: gap.onto kept) := by
  have hopen : (m.after '\\').column = m.column + 1 := column_after (by decide) m
  have hvalid := c.valid
  rw [escapeChar]
  cases hletter : escapeLetter? c with
  | some e =>
    rcases escapeLetter?_spec hletter with ⟨hbreak, hwidth, hread⟩
    refine ⟨(m.after '\\').after e, ?_, ?_⟩
    · rw [column_after hbreak]
      exact Nat.succ_ne_zero _
    · show scanDouble ('\\' :: e :: rest) m .none gap kept = _
      rw [scanDouble_backslash _ hcol, scanDouble, hbreak, if_neg Bool.false_ne_true, hwidth]
      simp only [hread]
  | none =>
    -- the three widths differ in the letter alone
    have hscan : ∀ {letter : Char} {width : Nat},
        isBreak letter = false ∧ escapeWidth? letter = some (width + 1) →
        c.toNat < Nat.pow 16 (width + 1) →
        ∃ m' : Mark, m'.column ≠ 0 ∧
          scanDouble ('\\' :: letter :: Text.upperHex (width + 1) c.toNat ++ rest) m .none gap kept =
            scanDouble rest m' .none .none (c :: gap.onto kept) := by
      intro letter width hletter hc
      obtain ⟨m', hle, hscan⟩ := scanDouble_numbered hletter hc rest (m.after '\\') (gap.onto kept)
      refine ⟨m', by omega, ?_⟩
      rw [List.cons_append, scanDouble_backslash _ hcol, hscan]
    simp only
    split_ifs with htwo hfour
    · exact hscan (by decide) htwo
    · exact hscan (by decide) hfour
    · refine hscan (by decide) ?_
      have hlimit : Nat.pow 16 (7 + 1) = 0x100000000 := by decide
      rw [hlimit]
      rcases hvalid with hlt | ⟨-, hlt⟩
      · exact Nat.lt_trans hlt (by decide)
      · exact Nat.lt_trans hlt (by decide)

/-- One character of the text adds itself to what has been read. -/
theorem scanDouble_doubleChar (c : Char) (rest : List Char) {m : Mark} (hcol : m.column ≠ 0)
    {gap : Gap} (hgap : gap.hasBreak = false) (kept : List Char) :
    ∃ (m' : Mark) (gap' : Gap) (kept' : List Char), m'.column ≠ 0 ∧ gap'.hasBreak = false ∧
      gap'.onto kept' = c :: gap.onto kept ∧
      scanDouble (doubleChar c ++ rest) m .none gap kept =
        scanDouble rest m' .none gap' kept' := by
  rw [doubleChar]
  -- an escape
  split_ifs with hescaped
  · rcases scanDouble_escapeChar c rest hcol gap kept with ⟨m', hm', hscan⟩
    exact ⟨m', .none, c :: gap.onto kept, hm', rfl, rfl, hscan⟩
  · -- a letter as it is, or a space that widens the gap
    simp only [Bool.or_eq_true, Bool.not_eq_true', decide_eq_true_eq, not_or, Bool.not_eq_false,
      Bool.not_eq_true] at hescaped
    rcases hescaped with ⟨⟨⟨hprintable, hbreak⟩, hquote⟩, hbackslash⟩
    have hisgap := isGap_of_isPrintable hprintable hbreak
    have hm' : (m.after c).column ≠ 0 := by
      rw [column_after hbreak]
      exact Nat.succ_ne_zero _
    cases hspace : isSpace c with
    | true =>
      cases beq_iff_eq.mp hspace
      exact ⟨m.after ' ', gap.add ' ', kept, hm', Gap.hasBreak_add_space hgap,
        Gap.onto_add_space hgap kept, scanDouble_space rest m gap kept⟩
    | false =>
      exact ⟨m.after c, .none, c :: gap.onto kept, hm', rfl, rfl,
        scanDouble_char (hisgap.trans hspace) hquote hbackslash rest hcol gap kept⟩

/-- Any text is read as it was written between quotation marks. -/
theorem scanDouble_writeDouble (cs rest : List Char) {m : Mark} (hcol : m.column ≠ 0)
    {gap : Gap} (hgap : gap.hasBreak = false) (kept : List Char) :
    ∃ m', scanDouble (cs.flatMap doubleChar ++ '"' :: rest) m .none gap kept =
      some ⟨.ofList ((gap.onto kept).reverse ++ cs), m', rest⟩ := by
  induction cs generalizing m gap kept with
  | nil =>
    refine ⟨m.right 1, ?_⟩
    rw [List.flatMap_nil, List.nil_append, scanDouble, if_pos rfl, List.append_nil]
  -- a character, then the rest
  | cons c cs ih =>
    obtain ⟨m', gap', kept', hm', hgap', honto, hchar⟩ :=
      scanDouble_doubleChar c (cs.flatMap doubleChar ++ '"' :: rest) hcol hgap kept
    rcases ih hm' hgap' kept' with ⟨m'', hscan⟩
    refine ⟨m'', ?_⟩
    rw [List.flatMap_cons, List.append_assoc, hchar, hscan, honto, List.reverse_cons,
      List.append_assoc, List.singleton_append]

end SyntaxTrees.Yaml
