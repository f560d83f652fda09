import LinguaMesh.Document.Pdf

/-!
# Escaped literals

`pdfEscape` puts a backslash before parentheses and backslashes and writes a
line feed and a carriage return as letters; every other byte stands for itself.
A literal scan takes the escape of one character in one turn, at any depth and
whatever follows (`literalTurn_escaped`), so it reads back what was escaped.
-/

namespace LinguaMesh.Pdf

open Run

/-! ## ASCII -/

theorem byte_inj {c d : Char} (hc : c.toNat < 128) (hd : d.toNat < 128) (h : byte c = byte d) :
    c = d := by
  have hnat : c.toNat.toUInt8.toNat = d.toNat.toUInt8.toNat := congrArg UInt8.toNat h
  rw [toNat_byte hc, toNat_byte hd] at hnat
  rw [← Char.ofNat_toNat c, ← Char.ofNat_toNat d, hnat]

theorem decodePdfText_ascii {text : Str} (h : ∀ c ∈ text, c.toNat < 128) :
    decodePdfText (text.map byte) = text := by
  have hdecoded : fromUtf8 (text.map byte) = some text := fromUtf8_ascii h
  rw [decodePdfText, hdecoded, Option.getD_some]

/-! ## Escapes -/

/-- What `pdf_escape` writes for a character. -/
def escapedChar (c : Char) : Bytes :=
  if c = '(' ∨ c = ')' ∨ c = '\\' then [byte '\\', byte c]
  else if c = '\n' then [byte '\\', byte 'n']
  else if c = '\r' then [byte '\\', byte 'r']
  else [byte c]

theorem length_le_escaped (text : Str) : text.length ≤ (text.flatMap escapedChar).length := by
  induction text with
  | nil => exact Nat.le_refl _
  | cons c text ih =>
    have hc : 1 ≤ (escapedChar c).length := by
      unfold escapedChar
      split_ifs <;> simp
    rw [List.flatMap_cons, List.length_append, List.length_cons]
    omega

theorem pdfEscape_ascii {text : Str} (h : ∀ c ∈ text, c.toNat < 128) :
    pdfEscape text = .ok (text.flatMap escapedChar) :=
  if_pos (List.all_eq_true.mpr fun c hc => decide_eq_true (h c hc))

section Scan

variable {data rest : Bytes} {start : Nat} {s : LiteralScan}

theorem getElem?_of_drop {b : UInt8} (h : data.drop s.cursor = b :: rest) :
    data[s.cursor]? = some b ∧ data.drop (s.cursor + 1) = rest := by
  refine ⟨?_, ?_⟩
  · rw [← List.head?_drop, h, List.head?_cons]
  · rw [← List.drop_drop, h, List.drop_one, List.tail_cons]

/-- A byte that is no parenthesis and no backslash stands for itself. -/
theorem literalTurn_plain {b : UInt8} (h : data.drop s.cursor = b :: rest) (h1 : b ≠ byte '(')
    (h2 : b ≠ byte ')') (h3 : b ≠ byte '\\') :
    literalTurn data start s =
      .ok (.next { s with cursor := s.cursor + 1, output := s.output ++ [b] }) := by
  unfold literalTurn
  rw [(getElem?_of_drop h).1]
  simp only [if_neg h1, if_neg h2, if_neg h3]

/-- After a backslash comes an escape. -/
theorem literalTurn_backslash {b : UInt8} (h : data.drop s.cursor = byte '\\' :: b :: rest) :
    literalTurn data start s = (escapeTurn data (s.cursor + 1) b s).map .next := by
  obtain ⟨h1, h2⟩ := getElem?_of_drop h
  have h3 : data[s.cursor + 1]? = some b := by rw [← List.head?_drop, h2, List.head?_cons]
  unfold literalTurn
  rw [h1]
  simp only [show byte '\\' ≠ byte '(' by decide, show byte '\\' ≠ byte ')' by decide, ↓reduceIte, h3]

/-- One turn takes the escape of a character. -/
theorem literalTurn_escaped {c : Char} (hc : c.toNat < 128)
    (h : data.drop s.cursor = escapedChar c ++ rest) :
    literalTurn data start s =
      .ok (.next { s with
        cursor := s.cursor + (escapedChar c).length, output := s.output ++ [byte c] }) := by
  unfold escapedChar at h ⊢
  split at h
  · rename_i hspecial
    rw [if_pos hspecial, literalTurn_backslash h]
    rcases hspecial with rfl | rfl | rfl <;> rfl
  · rename_i hspecial
    rw [if_neg hspecial]
    split at h
    · rename_i hline
      rw [if_pos hline, literalTurn_backslash h, hline]
      rfl
    · rename_i hline
      rw [if_neg hline]
      split at h
      · rename_i hreturn
        rw [if_pos hreturn, literalTurn_backslash h, hreturn]
        rfl
      · rename_i hreturn
        rw [if_neg hreturn]
        simp only [not_or] at hspecial
        exact literalTurn_plain h (fun hb => hspecial.1 (byte_inj hc (by decide) hb))
          (fun hb => hspecial.2.1 (byte_inj hc (by decide) hb))
          (fun hb => hspecial.2.2 (byte_inj hc (by decide) hb))

/-- The scan from the escape of a text on, up to the closing parenthesis after it. -/
theorem loop_escaped {text : Str} (htext : ∀ c ∈ text, c.toNat < 128) (rest : Bytes) {n : Nat}
    (hn : text.length < n) (hdepth : s.depth = 1)
    (h : data.drop s.cursor = text.flatMap escapedChar ++ byte ')' :: rest) :
    loop (literalTurn data start) n s =
      .ok (decodePdfText (s.output ++ text.map byte), start,
        s.cursor + (text.flatMap escapedChar).length + 1) := by
  induction text generalizing n s with
  | nil =>
    obtain ⟨n, rfl⟩ := Nat.exists_eq_succ_of_ne_zero (Nat.ne_of_gt hn)
    refine loop_done ?_
    unfold literalTurn
    rw [(getElem?_of_drop h).1, hdepth]
    simp [show byte ')' ≠ byte '(' by decide]
  | cons c text ih =>
    obtain ⟨hc, htext⟩ := List.forall_mem_cons.mp htext
    obtain ⟨n, rfl⟩ := Nat.exists_eq_succ_of_ne_zero (Nat.ne_of_gt (Nat.zero_lt_of_lt hn))
    rw [List.flatMap_cons, List.append_assoc] at h
    have hrest := congrArg (List.drop (escapedChar c).length) h
    rw [List.drop_drop, List.drop_left] at hrest
    rw [loop_next (literalTurn_escaped hc h)]
    let s' : LiteralScan := ⟨s.cursor + (escapedChar c).length, s.depth, s.output ++ [byte c]⟩
    refine (ih (s := s') htext (Nat.lt_of_succ_lt_succ hn) hdepth hrest).trans ?_
    simp only [s', List.map_cons, List.append_assoc, List.singleton_append, List.flatMap_cons,
      List.length_append, Nat.add_assoc]

end Scan

/-- A literal with an escaped text in it is read as that text, wherever it stands in the data. -/
theorem pdfLiteral_escaped {text : Str} (h : ∀ c ∈ text, c.toNat < 128) (before after : Bytes) :
    pdfLiteral (before ++ byte '(' :: (text.flatMap escapedChar ++ byte ')' :: after)) before.length =
      .ok (text, before.length, before.length + (text.flatMap escapedChar).length + 2) := by
  have hlength := length_le_escaped text
  unfold pdfLiteral
  rw [if_pos (by rw [List.getElem?_append_right (Nat.le_refl _), Nat.sub_self, List.getElem?_cons_zero])]
  rw [loop_escaped h after _ rfl]
  · rw [List.nil_append, decodePdfText_ascii h]
    have hstop : before.length + 1 + (text.flatMap escapedChar).length + 1 =
        before.length + (text.flatMap escapedChar).length + 2 := by omega
    exact congrArg (fun stop => Except.ok (text, before.length, stop)) hstop
  · rw [← List.drop_drop, List.drop_left, List.drop_one, List.tail_cons]
  · simp only [List.length_append, List.length_cons]
    omega

/-- Between parentheses an escaped text is read back, and all of its bytes are. -/
theorem pdfLiteral_pdfEscape {text : Str} (h : ∀ c ∈ text, c.toNat < 128) :
    ∃ escaped, pdfEscape text = .ok escaped ∧
      pdfLiteral ([byte '('] ++ escaped ++ [byte ')']) 0 =
        .ok (text, 0, ([byte '('] ++ escaped ++ [byte ')']).length) := by
  refine ⟨text.flatMap escapedChar, pdfEscape_ascii h, ?_⟩
  have hread := pdfLiteral_escaped h [] []
  rw [List.nil_append, List.length_nil, Nat.zero_add] at hread
  rw [List.append_assoc, List.singleton_append, hread, List.length_cons, List.length_append,
    List.length_singleton]

/-- Nested parentheses, a digit after an escape and a line break. -/
theorem pdfLiteral_pdfEscape_nested :
    ∃ escaped, pdfEscape "a(\\0)\r\n".toList = .ok escaped ∧
      pdfLiteral ([byte '('] ++ escaped ++ [byte ')']) 0 =
        .ok ("a(\\0)\r\n".toList, 0, ([byte '('] ++ escaped ++ [byte ')']).length) := by
  have hascii : "a(\\0)\r\n".toList.all (fun c => decide (c.toNat < 128)) = true := by decide
  exact pdfLiteral_pdfEscape fun c hc => of_decide_eq_true (List.all_eq_true.mp hascii c hc)

end LinguaMesh.Pdf
