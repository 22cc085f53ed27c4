import Mathlib.Tactic.SplitIfs
import SyntaxTrees.Json.Native.Printer
import SyntaxTrees.Proofs.Json.Law

/-!
# Printed documents

What is printed of a document is one of its texts (`document_print`), in either style. The induction is
on the document, and follows the printer from what it has written already.
-/

namespace SyntaxTrees.Json

open Rule
open Text (hexDigit?)

/-! ## Quoted texts -/

theorem hexDigit?_digitChar {k : Nat} (h : k < 16) : hexDigit? k.digitChar = some k := by
  have hall : ∀ k : Fin 16, hexDigit? k.val.digitChar = some k.val := by decide
  exact hall ⟨k, h⟩

/-- The digits of a control character spell its number. -/
theorem codeUnit_controlDigits {c : Char} (hc : c.toNat < 32) :
    CodeUnit (controlDigits c) c.toNat := by
  have hhigh : hexDigit? (Nat.digitChar (c.toNat / 16)) = some (c.toNat / 16) :=
    hexDigit?_digitChar (by omega)
  have hlow : hexDigit? (Nat.digitChar (c.toNat % 16)) = some (c.toNat % 16) :=
    hexDigit?_digitChar (by omega)
  have hzero : hexDigit? '0' = some 0 := by decide
  have hsum : c.toNat / 16 * 16 + c.toNat % 16 = c.toNat := Nat.div_add_mod' _ _
  refine ⟨rfl, ?_⟩
  simp [controlDigits, hexValue?, hhigh, hlow, hzero, hsum]

theorem character_quoteChar (c : Char) : Character c (quoteChar c) := by
  have hnumber {n : Nat} (hc : c.toNat = n) : c = .ofNat n := by
    rw [← hc, Char.ofNat_toNat]
  unfold quoteChar
  split_ifs with hquote hbackslash hback hfeed hline hreturn htab hcontrol
  -- characters that a single letter escapes
  · subst hquote
    exact .letter rfl
  · subst hbackslash
    exact .letter rfl
  · rw [hnumber hback]
    exact .letter rfl
  · rw [hnumber hfeed]
    exact .letter rfl
  · subst hline
    exact .letter rfl
  · subst hreturn
    exact .letter rfl
  · subst htab
    exact .letter rfl
  · -- the number of a control character is no half of another character
    have hhigh : ¬isHighHalf c.toNat := by
      simp [isHighHalf]
      omega
    have hlow : ¬isLowHalf c.toNat := by
      simp [isLowHalf]
      omega
    have hspelling := Character.number (codeUnit_controlDigits hcontrol) hhigh hlow
    rwa [Char.ofNat_toNat] at hspelling
  · exact .plain hquote hbackslash (Nat.le_of_not_lt hcontrol)

theorem quoted_quote (s : String) : Quoted s (quote s) := by
  have hall : ∀ cs : List Char, Characters cs (cs.flatMap quoteChar) := by
    intro cs
    induction cs with
    | nil => exact .none
    | cons c cs ih => exact .more (character_quoteChar c) ih
  exact .intro (hall s.toList)

/-! ## Gaps -/

theorem gap_lineBreak (style : Style) (depth : Nat) : Gap (style.lineBreak depth).toList := by
  intro c hc
  cases style with
  | compact => cases hc
  | indented =>
    have hcases : c = '\n' ∨ c ∈ List.replicate (2 * depth) ' ' := by
      simpa [Style.lineBreak, -List.mem_replicate] using hc
    rcases hcases with rfl | hspace
    · rfl
    · rw [List.eq_of_mem_replicate hspace]
      rfl

/-- The colon of a style, and the gap behind it. -/
theorem toList_colon (style : Style) : ∃ gap, style.colon.toList = ':' :: gap ∧ Gap gap := by
  cases style with
  | compact => exact ⟨[], rfl, gap_nil⟩
  | indented => exact ⟨[' '], rfl, List.all_eq_true.mp rfl⟩

theorem gap_append {front back : List Char} (h : Gap front) (h' : Gap back) : Gap (front ++ back) :=
  fun c hc => (List.mem_append.mp hc).elim (h c) (h' c)

theorem document_gap {j : Json} {before cs : List Char} (hbefore : Gap before)
    (h : Document j cs) : Document j (before ++ cs) := by
  rcases h with ⟨hinner, h, hafter⟩
  rw [← List.append_assoc]
  exact .intro (gap_append hbefore hinner) h hafter

theorem gap_document {j : Json} {cs after : List Char} (h : Document j cs) (hafter : Gap after) :
    Document j (cs ++ after) := by
  rcases h with ⟨hbefore, h, hinner⟩
  rw [List.append_assoc, List.append_assoc]
  exact .intro hbefore h (gap_append hinner hafter)

theorem items_gap {after : List Char} (hafter : Gap after) :
    ∀ {items : List Json} {cs : List Char}, Items items cs → Items items (cs ++ after)
  | _, _, .last h => .last (gap_document h hafter)
  | _, _, .more h hrest => by
    rw [List.append_assoc, List.cons_append]
    exact .more h (items_gap hafter hrest)

theorem member_gap {key : String} {j : Json} {cs after : List Char} (h : Member key j cs)
    (hafter : Gap after) : Member key j (cs ++ after) := by
  rcases h with ⟨hbefore, hname, hcolon, h⟩
  simp only [List.append_assoc, List.cons_append]
  exact .intro hbefore hname hcolon (gap_document h hafter)

theorem members_gap {after : List Char} (hafter : Gap after) :
    ∀ {members : List (String × Json)} {cs : List Char}, Members members cs →
      Members members (cs ++ after)
  | _, _, .last h => .last (member_gap h hafter)
  | _, _, .more h hrest => by
    rw [List.append_assoc, List.cons_append]
    exact .more h (members_gap hafter hrest)

/-- What the printer writes of a member: a line break, the key, a colon and the value. -/
theorem member_key (style : Style) (depth : Nat) (key : String) {j : Json} {cs : List Char}
    (h : Value j cs) :
    Member key j
      ((style.lineBreak depth).toList ++ (quote key ++ (style.colon.toList ++ cs))) := by
  rcases toList_colon style with ⟨gap, hcolon, hgap⟩
  rw [hcolon]
  exact .intro (gap_lineBreak style depth) (quoted_quote key) gap_nil (document_gap hgap h.document)

/-! ## Documents -/

variable (style : Style)

mutual

/-- The printer goes on with a text of the document. -/
theorem exists_value : ∀ (j : Json) (depth : Nat) (out : String), j.IsWhole →
    ∃ cs, (append style depth out j).toList = out.toList ++ cs ∧ Value j cs
  | .null, _, _, _ => ⟨_, by rw [append, String.toList_append]; rfl, .null⟩
  | .flag true, _, _, _ => ⟨_, by rw [append, String.toList_append]; rfl, .yes⟩
  | .flag false, _, _, _ => ⟨_, by rw [append, String.toList_append]; rfl, .no⟩
  -- a whole value has only natural numbers, printed in decimal
  | .number spelling, _, _, h => by
    cases h with
    | number n => exact ⟨_, by rw [append, String.toList_append], .number (numeral_toString n)⟩
  | .text s, _, _, _ =>
    ⟨_, by rw [append, String.toList_append, String.toList_ofList], .text (quoted_quote s)⟩
  | .array [], _, _, _ => ⟨_, by rw [append, String.toList_append]; rfl, .emptyArray gap_nil⟩
  -- the first item, then the others with a comma before each
  | .array (item :: rest), depth, out, h => by
    cases h with
    | array h =>
      rcases exists_value item (depth + 1) (out ++ "[" ++ style.lineBreak (depth + 1))
        (h item List.mem_cons_self) with ⟨cs, hcs, hitem⟩
      rcases exists_items rest (depth + 1)
        (append style (depth + 1) (out ++ "[" ++ style.lineBreak (depth + 1)) item)
        (fun j hj => h j (List.mem_cons_of_mem item hj)) with ⟨ds, hds, hrest⟩
      have hitems := hrest item _ (document_gap (gap_lineBreak style (depth + 1)) hitem.document)
      refine ⟨_, ?_, .array (items_gap (gap_lineBreak style depth) hitems)⟩
      rw [append, String.toList_append, String.toList_append, hds, hcs]
      simp
  | .object [], _, _, _ => ⟨_, by rw [append, String.toList_append]; rfl, .emptyObject gap_nil⟩
  -- and so for members
  | .object ((key, value) :: rest), depth, out, h => by
    cases h with
    | object h =>
      rcases exists_value value (depth + 1)
        (out ++ "\x7b" ++ style.lineBreak (depth + 1) ++ .ofList (quote key) ++ style.colon)
        (h _ List.mem_cons_self) with ⟨cs, hcs, hvalue⟩
      rcases exists_members rest (depth + 1)
        (append style (depth + 1)
          (out ++ "\x7b" ++ style.lineBreak (depth + 1) ++ .ofList (quote key) ++ style.colon) value)
        (fun m hm => h m (List.mem_cons_of_mem _ hm)) with ⟨ds, hds, hrest⟩
      have hmembers := hrest key value _ (member_key style (depth + 1) key hvalue)
      refine ⟨_, ?_, .object (members_gap (gap_lineBreak style depth) hmembers)⟩
      rw [append, String.toList_append, String.toList_append, hds, hcs]
      simp

/-- The printer goes on with further items. -/
theorem exists_items : ∀ (items : List Json) (depth : Nat) (out : String),
    (∀ j ∈ items, j.IsWhole) →
    ∃ cs, (appendItems style depth out items).toList = out.toList ++ cs ∧
      ∀ (j : Json) (ds : List Char), Document j ds → Items (j :: items) (ds ++ cs)
  | [], _, out, _ => by
    refine ⟨[], by rw [appendItems, List.append_nil], fun j ds hj => ?_⟩
    rw [List.append_nil]
    exact .last hj
  | item :: rest, depth, out, h => by
    rcases exists_value item depth (out ++ "," ++ style.lineBreak depth) (h item List.mem_cons_self)
      with ⟨cs, hcs, hitem⟩
    rcases exists_items rest depth (append style depth (out ++ "," ++ style.lineBreak depth) item)
      (fun j hj => h j (List.mem_cons_of_mem item hj)) with ⟨es, hes, hrest⟩
    have hitems := hrest item _ (document_gap (gap_lineBreak style depth) hitem.document)
    refine ⟨_, ?_, fun j ds hj => .more hj hitems⟩
    rw [appendItems, hes, hcs]
    simp

/-- The printer goes on with further members. -/
theorem exists_members : ∀ (members : List (String × Json)) (depth : Nat) (out : String),
    (∀ m ∈ members, m.2.IsWhole) →
    ∃ cs, (appendMembers style depth out members).toList = out.toList ++ cs ∧
      ∀ (key : String) (j : Json) (ds : List Char), Member key j ds →
        Members ((key, j) :: members) (ds ++ cs)
  | [], _, out, _ => by
    refine ⟨[], by rw [appendMembers, List.append_nil], fun key j ds hj => ?_⟩
    rw [List.append_nil]
    exact .last hj
  | (key, value) :: rest, depth, out, h => by
    rcases exists_value value depth
      (out ++ "," ++ style.lineBreak depth ++ .ofList (quote key) ++ style.colon)
      (h _ List.mem_cons_self) with ⟨cs, hcs, hvalue⟩
    rcases exists_members rest depth
      (append style depth
        (out ++ "," ++ style.lineBreak depth ++ .ofList (quote key) ++ style.colon) value)
      (fun m hm => h m (List.mem_cons_of_mem _ hm)) with ⟨es, hes, hrest⟩
    have hmembers := hrest key value _ (member_key style depth key hvalue)
    refine ⟨_, ?_, fun key' j ds hj => .more hj hmembers⟩
    rw [appendMembers, hes, hcs]
    simp

end

/-- What is printed of a document is a text of it. -/
theorem document_print {j : Json} (h : j.IsWhole) : Document j (print style j).toList := by
  rcases exists_value style j 0 "" h with ⟨cs, hcs, hvalue⟩
  rw [print, hcs]
  exact hvalue.document

end SyntaxTrees.Json
