import SyntaxTrees.Proofs.Yaml.Native.Line

/-!
# Written texts are printable

Whatever a text holds, what is written for it consists of printable characters
(`all_writeScalar`). So no character of a written text is refused, and no line break is taken for
another one: a reader that gets over its lines gets the tokens of the whole text
(`tokens?_of_yields`).
-/

namespace SyntaxTrees.Yaml

theorem isAllowed_of_isPrintable {c : Char} (h : isPrintable c = true) : isAllowed c = true := by
  simp only [isPrintable, isAllowed, Bool.or_eq_true, Bool.and_eq_true, beq_iff_eq,
    decide_eq_true_eq] at h ⊢
  omega

theorem unifyBreaks_of_printable {cs : List Char} (h : cs.all isPrintable = true) :
    unifyBreaks cs = cs := by
  induction cs with
  | nil => rfl
  | cons c cs ih =>
    rw [List.all_cons, Bool.and_eq_true] at h
    -- neither a carriage return nor a next line may be printed
    have hreturn : c ≠ '\r' := by
      rintro rfl
      cases h.1
    have hnext : c.toNat ≠ 0x85 := by
      intro hnumber
      rw [isPrintable, hnumber] at h
      cases h.1
    rw [unifyBreaks, if_neg (by simp [hreturn, hnext]), ih h.2]
    rintro _ rfl
    exact absurd rfl hreturn

/-! ## Scalars -/

theorem all_spaces (n : Nat) : (spaces n).all isPrintable = true := by
  rw [spaces, List.all_replicate]
  simp [show isPrintable ' ' = true by decide]

theorem all_writeSingle {pad cs : List Char} (hpad : pad.all isPrintable = true)
    (h : cs.all isPrintable = true) (lineStart : Bool) :
    (writeSingle pad lineStart cs).all isPrintable = true := by
  have hquote : isPrintable '\'' = true := by decide
  induction cs generalizing lineStart with
  | nil => cases lineStart <;> simp [writeSingle, hpad, hquote, -List.all_eq_true]
  | cons c cs ih =>
    rw [List.all_cons, Bool.and_eq_true] at h
    have hrest := ih h.2
    rw [writeSingle]
    split_ifs <;> simp [hpad, hquote, h.1, hrest, -List.all_eq_true]

theorem all_upperHex (width n : Nat) : (Text.upperHex width n).all isPrintable = true := by
  have hdigit : ∀ k : Fin 16, isPrintable k.val.digitChar.toUpper = true := by decide
  induction width generalizing n with
  | zero => rfl
  | succ width ih =>
    have hlast := hdigit ⟨n % 16, Nat.mod_lt n (by decide)⟩
    simp [Text.upperHex, ih, hlast, -List.all_eq_true]

theorem isPrintable_escapeLetter {c e : Char} (h : escapeLetter? c = some e) :
    isPrintable e = true := by
  unfold escapeLetter? at h
  split at h <;> cases h <;> decide

theorem all_escapeChar (c : Char) : (escapeChar c).all isPrintable = true := by
  have hmarks : isPrintable '\\' = true ∧ isPrintable 'x' = true ∧ isPrintable 'u' = true ∧
      isPrintable 'U' = true := by decide
  rw [escapeChar]
  cases hletter : escapeLetter? c with
  | some e => simp [hmarks, isPrintable_escapeLetter hletter]
  | none =>
    simp only
    split_ifs <;> simp [hmarks, all_upperHex, -List.all_eq_true]

theorem all_doubleChar (c : Char) : (doubleChar c).all isPrintable = true := by
  rw [doubleChar]
  split_ifs with h
  · exact all_escapeChar c
  · simp only [Bool.or_eq_true, Bool.not_eq_true', not_or, Bool.not_eq_false] at h
    simpa using h.1.1.1

theorem all_writeLines {pad cs : List Char} (hpad : pad.all isPrintable = true)
    (h : cs.all isPrintable = true) (lineStart : Bool) :
    (writeLines pad lineStart cs).all isPrintable = true := by
  have hfeed : isPrintable '\n' = true := by decide
  induction cs generalizing lineStart with
  | nil => cases lineStart <;> simp [writeLines, hfeed]
  | cons c cs ih =>
    rw [List.all_cons, Bool.and_eq_true] at h
    have hrest := ih h.2
    rw [writeLines]
    split_ifs <;> simp [hpad, h.1, hrest, -List.all_eq_true]

theorem all_writeLiteral {pad cs : List Char} (hpad : pad.all isPrintable = true)
    (h : cs.all isPrintable = true) : (writeLiteral pad cs).all isPrintable = true := by
  have hmarks : (indentMark cs).all isPrintable = true ∧ (chompMark cs).all isPrintable = true ∧
      isPrintable '|' = true ∧ isPrintable '\n' = true := by
    refine ⟨?_, ?_, by decide, by decide⟩
    · rw [indentMark]
      split_ifs <;> decide
    · rw [chompMark_eq]
      cases chompOf cs <;> decide
  simp [writeLiteral, hmarks, all_writeLines hpad h, -List.all_eq_true]

theorem all_of_needsEscapes {cs : List Char} (h : needsEscapes cs = false) :
    cs.all isPrintable = true := by
  rw [needsEscapes, Bool.or_eq_false_iff, Bool.not_eq_false'] at h
  exact h.1

/-- What is written for a text can be shown as it is. -/
theorem all_writeScalar (column : Nat) (cs : List Char) :
    (writeScalar column cs).all isPrintable = true := by
  have hmarks : isPrintable '\'' = true ∧ isPrintable '"' = true ∧ isPrintable '\n' = true := by decide
  have hpad := all_spaces (column + indentStep)
  rcases styleOf_cases cs with ⟨hstyle, -, hplain⟩ | ⟨hstyle, -, hsingle⟩ | hstyle |
    ⟨hstyle, -, hliteral⟩ <;> rw [writeScalar, hstyle]
  · -- bare
    simp only [allowsPlain, Bool.and_eq_true, Bool.not_eq_true'] at hplain
    have hcs := all_of_needsEscapes hplain.1.1.1.1
    simp [hcs, hmarks, -List.all_eq_true]
  · -- in single quotes
    simp only [allowsSingle, Bool.and_eq_true, Bool.not_eq_true'] at hsingle
    have hcs := all_writeSingle hpad (all_of_needsEscapes hsingle.1) false
    simp [hcs, hmarks, -List.all_eq_true]
  · -- in double quotes: every escape is written in plain letters
    have hbody : (cs.flatMap doubleChar).all isPrintable = true := by
      rw [List.all_flatMap, List.all_eq_true]
      exact fun c _ => all_doubleChar c
    simp [writeDouble, hmarks, hbody, -List.all_eq_true]
  · -- as a block
    simp only [allowsLiteral, Bool.and_eq_true, Bool.not_eq_true'] at hliteral
    exact all_writeLiteral hpad (all_of_needsEscapes hliteral.1)

/-! ## Whole texts -/

/-- A reader that gets over the lines of a printable text gets its tokens. -/
theorem tokens?_of_yields {cs : List Char} {ts : List Token} (hcs : cs.all isPrintable = true)
    (hstart : LeadsToToken cs) (h : (Place.atLine cs [] []).Yields ts) : tokens? cs = some ts := by
  -- what is printable may stand in a text, and has no break to unify
  have hallowed : cs.all isAllowed = true := by
    rw [List.all_eq_true] at hcs ⊢
    exact fun c hc => isAllowed_of_isPrintable (hcs c hc)
  rw [tokens?, if_pos hallowed, unifyBreaks_of_printable hcs]
  have hplace : Place.atLine cs [] [] = ⟨cs, 0, [], [], true⟩ :=
    Place.atLine_spaces hstart 0 [] []
  have hsettled : Cursor.settled { rest := cs } = { rest := cs } :=
    Cursor.settled_eq_self rfl hstart (by simp)
  refine h { rest := cs } (cs.length + 1) ?_ ?_
  · rw [hsettled, hplace]
    exact ⟨rfl, rfl, rfl, rfl, rfl, rfl, rfl, rfl⟩
  · rw [hplace]
    exact Nat.lt_succ_self _

end SyntaxTrees.Yaml
