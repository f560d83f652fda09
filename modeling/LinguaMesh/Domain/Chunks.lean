import LinguaMesh.Domain.Woven

/-!
# Chunks

`ProtectedSource.chunks` cuts a protected text into pieces of at most
`max_bytes` bytes. A round takes the longest piece that fits (`byteLimit`), moves
its end in front of a marker that it would cut (`spanLimit`), and then back
behind the last sentence end or blank (`semanticBoundary`). No step moves the
end into a marker (`splitStep_woven`), so the pieces are woven texts and their
concatenation is the source (`chunks_partition`).
-/

namespace LinguaMesh

open Search Weave

inductive ChunkingError where
  | invalidLimit | protectedSpanTooLarge | protectedSpanSplit
  deriving DecidableEq, Repr

/-- The `Display` text. -/
def ChunkingError.message : ChunkingError → String
  | invalidLimit => "Translation chunk size must be greater than zero."
  | protectedSpanTooLarge => "A protected span exceeds the translation chunk size."
  | protectedSpanSplit => "Translation chunking would split a protected span."

/-! ## Cutting the text -/

/-- The characters of the rest that take at most `n` bytes: `start + max_bytes`, moved back to a
character boundary. -/
def byteLimit : Nat → Str → Nat
  | _, [] => 0
  | n, c :: cs => if c.utf8Size ≤ n then byteLimit (n - c.utf8Size) cs + 1 else 0

/-- The first token whose first occurrence crosses the limit, and where it starts. -/
def crossingSpan (protectedTokens : List Str) (rest : Str) (limit : Nat) : Option (Nat × Str) :=
  protectedTokens.findSome? fun token =>
    match find token rest with
    | none => none
    | some tokenStart =>
      if tokenStart < limit && limit < tokenStart + token.length then some (tokenStart, token)
      else none

def isBreak (c : Char) : Bool := "\n.!?。！？".toList.contains c || isWhitespace c

/-- The end of the last sentence or blank up to the limit, else the limit. -/
def semanticBoundary (rest : Str) (limit : Nat) : Nat :=
  match (rest.take limit).rdropWhile (!isBreak ·) with
  | [] => limit
  | kept => kept.length

/-- The limit, moved to the start of the marker that crosses it. -/
def spanLimit (maxBytes : Nat) (protectedTokens : List Str) (rest : Str) (limit : Nat) :
    Except ChunkingError Nat :=
  match crossingSpan protectedTokens rest limit with
  | none => .ok limit
  | some (tokenStart, token) =>
    if tokenStart = 0 then .error .protectedSpanTooLarge
    else if maxBytes < utf8Len token then .error .protectedSpanTooLarge
    else .ok tokenStart

/-- One round of the loop: the length of the next piece of the rest. -/
def splitStep (maxBytes : Nat) (protectedTokens : List Str) (rest : Str) :
    Except ChunkingError Nat := do
  let limit ← spanLimit maxBytes protectedTokens rest (byteLimit maxBytes rest)
  let boundary := semanticBoundary rest limit
  if boundary = 0 then .error .protectedSpanSplit else .ok boundary

/-- The loop of `split_protected_text`. A round takes at least one character, so a budget of one
round for each is not used up (`splitFrom_fuel`). -/
def splitFrom (maxBytes : Nat) (protectedTokens : List Str) :
    Nat → Str → Except ChunkingError (List Str)
  | 0, _ => .ok []
  | fuel + 1, rest =>
    if rest = [] then .ok []
    else do
      let boundary ← splitStep maxBytes protectedTokens rest
      let chunks ← splitFrom maxBytes protectedTokens fuel (rest.drop boundary)
      .ok (rest.take boundary :: chunks)

def splitProtectedText (text : Str) (maxBytes : Nat) (protectedTokens : List Str) :
    Except ChunkingError (List Str) :=
  if maxBytes = 0 then .error .invalidLimit
  else if text = [] then .ok [[]]
  else if utf8Len text ≤ maxBytes then .ok [text]
  else splitFrom maxBytes protectedTokens text.length text

/-! ## Giving out the spans -/

/-- The spans of a piece, and the flags with these marked as used. -/
def takeSpans (piece : Str) :
    List ProtectedSpan → List Bool → Except ChunkingError (List ProtectedSpan × List Bool)
  | span :: spans, wasUsed :: used =>
    if contains piece span.token then
      if wasUsed then .error .protectedSpanSplit
      else do
        let (mine, used) ← takeSpans piece spans used
        .ok (span :: mine, true :: used)
    else do
      let (mine, used) ← takeSpans piece spans used
      .ok (mine, wasUsed :: used)
  | _, _ => .ok ([], [])

def collectChunks (spans : List ProtectedSpan) :
    List Bool → List Str → Except ChunkingError (List ProtectedSource)
  | used, [] => if used.any (!·) then .error .protectedSpanSplit else .ok []
  | used, piece :: pieces => do
    let (mine, used) ← takeSpans piece spans used
    let chunks ← collectChunks spans used pieces
    .ok (⟨piece, mine⟩ :: chunks)

def ProtectedSource.chunks (p : ProtectedSource) (maxBytes : Nat) :
    Except ChunkingError (List ProtectedSource) := do
  let pieces ← splitProtectedText p.text maxBytes (p.spans.map (·.token))
  collectChunks p.spans (List.replicate p.spans.length false) pieces

theorem splitProtectedText_ne_nil {text : Str} {maxBytes : Nat} {tokens pieces : List Str}
    (h : splitProtectedText text maxBytes tokens = .ok pieces) : pieces ≠ [] := by
  unfold splitProtectedText at h
  split at h
  · cases h
  split at h
  · obtain rfl := Except.ok.inj h
    exact List.cons_ne_nil _ _
  rename_i htext
  split at h
  · obtain rfl := Except.ok.inj h
    exact List.cons_ne_nil _ _
  cases text with
  | nil => exact absurd rfl htext
  | cons c text =>
    rw [List.length_cons, splitFrom, if_neg htext] at h
    obtain ⟨boundary, -, h⟩ := Except.bind_ok.mp h
    obtain ⟨rest, -, h⟩ := Except.bind_ok.mp h
    obtain rfl := Except.ok.inj h
    exact List.cons_ne_nil _ _

theorem ProtectedSource.chunks_ne_nil {p : ProtectedSource} {maxBytes : Nat}
    {chunks : List ProtectedSource} (h : p.chunks maxBytes = .ok chunks) : chunks ≠ [] := by
  obtain ⟨pieces, hpieces, h⟩ := Except.bind_ok.mp h
  cases pieces with
  | nil => exact absurd rfl (splitProtectedText_ne_nil hpieces)
  | cons piece pieces =>
    rw [collectChunks] at h
    obtain ⟨taken, -, h⟩ := Except.bind_ok.mp h
    obtain ⟨rest, -, h⟩ := Except.bind_ok.mp h
    obtain rfl := Except.ok.inj h
    exact List.cons_ne_nil _ _

/-! ## Limits and boundaries -/

theorem byteLimit_le (n : Nat) (s : Str) :
    byteLimit n s ≤ s.length ∧ utf8Len (s.take (byteLimit n s)) ≤ n := by
  induction s generalizing n with
  | nil => simp [byteLimit, utf8Len]
  | cons c s ih =>
    rw [byteLimit]
    split
    · obtain ⟨h1, h2⟩ := ih (n - c.utf8Size)
      rw [List.take_succ_cons, utf8Len_cons, List.length_cons]
      omega
    · simp [utf8Len]

/-- A start of the text that fits is within the limit. -/
theorem le_byteLimit {n : Nat} {s t : Str} (ht : t <+: s) (hl : utf8Len t ≤ n) :
    t.length ≤ byteLimit n s := by
  induction s generalizing n t with
  | nil => rw [List.prefix_nil.mp ht]; exact Nat.zero_le _
  | cons c s ih =>
    cases t with
    | nil => exact Nat.zero_le _
    | cons d t =>
      obtain ⟨rfl, hts⟩ := List.cons_prefix_cons.mp ht
      rw [utf8Len_cons] at hl
      have := ih (n := n - d.utf8Size) hts (by omega)
      rw [byteLimit, if_pos (by omega), List.length_cons]
      omega

theorem byteLimit_pos {n : Nat} {s : Str} (hn : 4 ≤ n) (hs : s ≠ []) : 0 < byteLimit n s := by
  obtain ⟨c, s, rfl⟩ := List.exists_cons_of_ne_nil hs
  refine le_byteLimit (t := [c]) ⟨s, rfl⟩ ?_
  rw [utf8Len_cons]
  have := c.utf8Size_le_four
  simp only [utf8Len, List.map_nil, List.sum_nil]
  omega

/-- The boundary is the limit, or a break ends there. -/
theorem semanticBoundary_spec {rest : Str} {limit : Nat} (hl : limit ≤ rest.length) :
    semanticBoundary rest limit = limit ∨
      0 < semanticBoundary rest limit ∧ semanticBoundary rest limit ≤ limit ∧
        (rest.take (semanticBoundary rest limit)).getLast?.any isBreak := by
  unfold semanticBoundary
  split
  · exact .inl rfl
  · rename_i kept hne
    refine .inr ?_
    have hp : (rest.take limit).rdropWhile (!isBreak ·) <+: rest.take limit :=
      List.rdropWhile_prefix _ _
    have hle := hp.length_le
    rw [List.length_take_of_le hl] at hle
    have hne' : (rest.take limit).rdropWhile (!isBreak ·) ≠ [] := hne
    have htake : rest.take ((rest.take limit).rdropWhile (!isBreak ·)).length =
        (rest.take limit).rdropWhile (!isBreak ·) :=
      (List.prefix_iff_eq_take.mp (hp.trans (List.take_prefix ..))).symm
    have hlast := List.rdropWhile_last_not (!isBreak ·) _ hne'
    refine ⟨List.length_pos_iff.mpr hne', hle, ?_⟩
    rw [htake, List.getLast?_eq_some_getLast hne']
    simpa using hlast

theorem isDigit_not_break {c : Char} (h : c.isDigit) : isBreak c = false := by
  have hdigits : ((List.range 58).all fun n => n < 48 || !isBreak (Char.ofNat n)) = true := by
    decide +kernel
  simp only [Char.isDigit, Bool.and_eq_true, decide_eq_true_eq] at h
  have h58 : c.toNat < 58 := Nat.lt_succ_of_le h.2
  have h48 : 48 ≤ c.toNat := h.1
  have := List.all_eq_true.mp hdigits c.toNat (List.mem_range.mpr h58)
  rw [Char.ofNat_toNat] at this
  simpa [Nat.not_lt.mpr h48] using this

theorem marker_not_break {i e : Nat} {c : Char} (h : c ∈ marker i e) : isBreak c = false := by
  simp only [marker, List.mem_append] at h
  rcases h with (h | h) | h
  · have : (protectedTokenPrefix.all fun c => !isBreak c) = true := by decide +kernel
    simpa using List.all_eq_true.mp this c h
  · exact isDigit_not_break (Nat.isDigit_of_mem_toDigits (by decide) (by decide) h)
  · rw [List.eq_of_mem_replicate h]
    decide

theorem splitStep_pos {maxBytes : Nat} {tokens : List Str} {rest : Str} {n : Nat}
    (h : splitStep maxBytes tokens rest = .ok n) : 0 < n := by
  unfold splitStep at h
  obtain ⟨limit, -, h⟩ := Except.bind_ok.mp h
  simp only at h
  split at h
  · cases h
  · rename_i h0
    cases h
    exact Nat.pos_of_ne_zero h0

theorem splitFrom_fuel {maxBytes : Nat} {tokens : List Str} {fuel : Nat} {rest : Str}
    (h : rest.length ≤ fuel) :
    splitFrom maxBytes tokens (fuel + 1) rest = splitFrom maxBytes tokens fuel rest := by
  induction fuel generalizing rest with
  | zero =>
    obtain rfl := List.length_eq_zero_iff.mp (Nat.le_zero.mp h)
    rfl
  | succ fuel ih =>
    rw [splitFrom]
    conv => rhs; rw [splitFrom]
    split
    · rfl
    · rename_i hne
      cases hs : splitStep maxBytes tokens rest with
      | error e => rfl
      | ok n =>
        have hn := splitStep_pos hs
        have := List.length_pos_iff.mpr hne
        rw [Except.ok_bind, Except.ok_bind, ih (by rw [List.length_drop]; omega)]

/-! ## Markers in a woven text -/

section Woven

variable {token : Nat → Str} {is : List Nat} {w : Woven}

theorem find_token (hm : ∀ i, ∃ e, token i = marker i e) {u v : Woven} {i : Nat}
    (hw : Unnamed (u ++ .inr i :: v)) (hn : (marks (u ++ .inr i :: v)).Nodup) :
    find (token i) (spell token (u ++ .inr i :: v)) = some (spell token u).length := by
  have he : spell token (u ++ .inr i :: v) = spell token u ++ token i ++ spell token v := by simp
  rw [he]
  refine find_first fun A B h => ?_
  obtain ⟨u', v', hu, rfl, -⟩ :=
    token_at hm hw (he.trans (h.trans (List.append_assoc A (token i) B)))
  obtain ⟨rfl, -⟩ := split_unique hu hn
  exact Nat.le_refl _

/-- No marker crosses the limit, so the limit is a cut of the woven text. -/
theorem crossingSpan_none (hm : ∀ i, ∃ e, token i = marker i e) (hw : Unnamed w)
    (hn : (marks w).Nodup) (hsub : ∀ i ∈ marks w, i ∈ is) {limit : Nat}
    (h : crossingSpan (is.map token) (spell token w) limit = none)
    (hl : limit ≤ (spell token w).length) :
    ∃ u v, w = u ++ v ∧ (spell token u).length = limit := by
  rcases spell_cut (List.take_append_drop limit (spell token w)).symm with
    ⟨u, v, hu, h1, -⟩ | ⟨u, i, v, a, b, rfl, hi, ha, hb, h1, -⟩
  · exact ⟨u, v, hu, by rw [← h1, List.length_take_of_le hl]⟩
  · exfalso
    have hlen := congrArg List.length h1
    rw [List.length_take_of_le hl, List.length_append] at hlen
    have := List.findSome?_eq_none_iff.mp h (token i)
      (List.mem_map_of_mem (hsub i (by simp)))
    rw [find_token hm hw hn] at this
    have ha := List.length_pos_iff.mpr ha
    have hb := List.length_pos_iff.mpr hb
    simp only [hi, List.length_append, ite_eq_right_iff, Bool.and_eq_true, decide_eq_true_eq,
      reduceCtorEq, imp_false, not_and, Nat.not_lt] at this
    omega

theorem crossingSpan_some (hm : ∀ i, ∃ e, token i = marker i e) (hw : Unnamed w) {limit : Nat}
    {x : Nat × Str} (h : crossingSpan (is.map token) (spell token w) limit = some x) :
    ∃ u i v, w = u ++ .inr i :: v ∧ x = ((spell token u).length, token i) ∧
      (spell token u).length < limit ∧ limit < (spell token u).length + (token i).length := by
  obtain ⟨t, ht, h⟩ := List.exists_of_findSome?_eq_some h
  obtain ⟨i, -, rfl⟩ := List.mem_map.mp ht
  split at h
  · cases h
  · rename_i n hf
    simp only [Option.ite_none_right_eq_some, Bool.and_eq_true, decide_eq_true_eq,
      Option.some.injEq] at h
    obtain ⟨⟨A, B, he, rfl⟩, -⟩ := find_eq_some hf
    obtain ⟨u, v, rfl, rfl, -⟩ := token_at hm hw (he.trans (List.append_assoc ..))
    exact ⟨u, i, v, rfl, h.2.symm, h.1⟩

/-- The semantic boundary of a cut is a cut: no break ends inside a marker. -/
theorem semanticBoundary_woven (hm : ∀ i, ∃ e, token i = marker i e) {u v : Woven}
    (hu : spell token u ≠ []) :
    ∃ u' v', u ++ v = u' ++ v' ∧ spell token u' ≠ [] ∧ spell token u' <+: spell token u ∧
      semanticBoundary (spell token (u ++ v)) (spell token u).length =
        (spell token u').length := by
  have hle : (spell token u).length ≤ (spell token (u ++ v)).length := by simp
  rcases semanticBoundary_spec hle with h | ⟨h0, hl, hb⟩
  · exact ⟨u, v, rfl, hu, List.prefix_rfl, h⟩
  · generalize semanticBoundary (spell token (u ++ v)) (spell token u).length = n at h0 hl hb
    have htake : (spell token (u ++ v)).take n = (spell token u).take n := by
      rw [spell_append, List.take_append_of_le_length hl]
    rw [htake] at hb
    have hlen : ((spell token u).take n).length = n := List.length_take_of_le hl
    rcases spell_cut (List.take_append_drop n (spell token u)).symm with
      ⟨u₁, u₂, rfl, h1, -⟩ | ⟨u₁, i, u₂, a, b, rfl, hi, ha, -, h1, -⟩
    · refine ⟨u₁, u₂ ++ v, by simp, ?_, by simp, by rw [← h1, hlen]⟩
      intro hnil
      rw [h1, hnil] at hlen
      exact absurd hlen.symm (Nat.ne_of_gt h0)
    · exfalso
      rw [h1, List.getLast?_append_of_ne_nil _ ha, List.getLast?_eq_some_getLast ha] at hb
      obtain ⟨e, he⟩ := hm i
      have hmem : a.getLast ha ∈ marker i e := by
        rw [← he, hi]
        exact List.mem_append_left _ (List.getLast_mem ha)
      rw [Option.any_some, marker_not_break hmem] at hb
      cases hb

/-- A round takes a piece that is woven, not empty and within the limit. -/
theorem splitStep_woven (hm : ∀ i, ∃ e, token i = marker i e) (hw : Unnamed w)
    (hn : (marks w).Nodup) (hsub : ∀ i ∈ marks w, i ∈ is) {maxBytes : Nat} (h4 : 4 ≤ maxBytes)
    (hmax : ∀ i ∈ marks w, utf8Len (token i) ≤ maxBytes) (hne : spell token w ≠ []) :
    ∃ u v, w = u ++ v ∧ spell token u ≠ [] ∧ utf8Len (spell token u) ≤ maxBytes ∧
      splitStep maxBytes (is.map token) (spell token w) = .ok (spell token u).length := by
  obtain ⟨hle, hfit⟩ := byteLimit_le maxBytes (spell token w)
  have hpos := byteLimit_pos h4 hne
  obtain ⟨u, v, rfl, hu0, hul, hlimit⟩ : ∃ u v, w = u ++ v ∧ spell token u ≠ [] ∧
      (spell token u).length ≤ byteLimit maxBytes (spell token w) ∧
      spanLimit maxBytes (is.map token) (spell token w) (byteLimit maxBytes (spell token w)) =
        .ok (spell token u).length := by
    unfold spanLimit
    cases hc : crossingSpan (is.map token) (spell token w)
        (byteLimit maxBytes (spell token w)) with
    | none =>
      obtain ⟨u, v, hu, hlen⟩ := crossingSpan_none hm hw hn hsub hc hle
      exact ⟨u, v, hu, List.length_pos_iff.mp (by omega), by omega, by rw [hlen]⟩
    | some x =>
      obtain ⟨u, i, v, rfl, rfl, h1, h2⟩ := crossingSpan_some hm hw hc
      have hi := hmax i (by simp)
      have hu0 : spell token u ≠ [] := by
        intro hnil
        have := le_byteLimit (n := maxBytes) (s := spell token (u ++ .inr i :: v)) (t := token i)
          (by simp [hnil]) hi
        rw [hnil] at h2
        simp only [List.length_nil] at h2
        omega
      have hpos' := List.length_pos_iff.mpr hu0
      refine ⟨u, .inr i :: v, rfl, hu0, by omega, ?_⟩
      simp only [if_neg (Nat.ne_of_gt hpos'), if_neg (Nat.not_lt.mpr hi)]
  obtain ⟨u', v', huv, hu0', hpre, hb⟩ := semanticBoundary_woven (v := v) hm hu0
  refine ⟨u', v', huv, hu0', ?_, ?_⟩
  · have hpre' : spell token u' <+: (spell token (u ++ v)).take
        (byteLimit maxBytes (spell token (u ++ v))) := by
      refine List.prefix_take_iff.mpr ⟨hpre.trans (by simp), ?_⟩
      have := hpre.length_le
      omega
    obtain ⟨t, ht⟩ := hpre'
    rw [← ht, utf8Len_append] at hfit
    omega
  · rw [splitStep, hlimit, Except.ok_bind]
    simp only [hb]
    rw [if_neg]
    exact fun h => hu0' (List.length_eq_zero_iff.mp h)

theorem spell_eq_nil (hm : ∀ i, ∃ e, token i = marker i e) : spell token w = [] ↔ w = [] := by
  constructor
  · intro h
    match w, h with
    | [], _ => rfl
    | .inr i :: w, h =>
      obtain ⟨e, he⟩ := hm i
      rw [spell_inr, he, marker, prefix_eq] at h
      simp at h
  · rintro rfl
    rfl

theorem splitFrom_woven (hm : ∀ i, ∃ e, token i = marker i e) (hw : Unnamed w)
    (hn : (marks w).Nodup) (hsub : ∀ i ∈ marks w, i ∈ is) {maxBytes : Nat} (h4 : 4 ≤ maxBytes)
    (hmax : ∀ i ∈ marks w, utf8Len (token i) ≤ maxBytes) {fuel : Nat}
    (hf : (spell token w).length ≤ fuel) :
    ∃ parts : List Woven, parts.flatten = w ∧
      splitFrom maxBytes (is.map token) fuel (spell token w) = .ok (parts.map (spell token)) ∧
      ∀ part ∈ parts, spell token part ≠ [] ∧ utf8Len (spell token part) ≤ maxBytes := by
  induction fuel generalizing w with
  | zero =>
    obtain rfl := (spell_eq_nil hm).mp (List.length_eq_zero_iff.mp (Nat.le_zero.mp hf))
    exact ⟨[], rfl, rfl, by simp⟩
  | succ fuel ih =>
    by_cases hne : spell token w = []
    · obtain rfl := (spell_eq_nil hm).mp hne
      exact ⟨[], rfl, rfl, by simp⟩
    · obtain ⟨u, v, rfl, hu0, hul, hstep⟩ := splitStep_woven hm hw hn hsub h4 hmax hne
      have hpos := List.length_pos_iff.mpr hu0
      rw [marks_append] at hn
      rw [spell_append, List.length_append] at hf
      obtain ⟨parts, hparts, hrest, hall⟩ := ih (hw.of_infix (List.suffix_append u v).isInfix)
        (List.nodup_append.mp hn).2.1 (fun i hi => hsub i (by simp [hi]))
        (fun i hi => hmax i (by simp [hi])) (by omega)
      refine ⟨u :: parts, by rw [List.flatten_cons, hparts], ?_, ?_⟩
      · rw [splitFrom, if_neg hne, hstep, Except.ok_bind, spell_append, List.drop_left,
          List.take_left, hrest]
        rfl
      · intro part hpart
        rcases List.mem_cons.mp hpart with rfl | hpart
        · exact ⟨hu0, hul⟩
        · exact hall part hpart

theorem splitProtectedText_woven (hm : ∀ i, ∃ e, token i = marker i e) (hw : Unnamed w)
    (hn : (marks w).Nodup) (hsub : ∀ i ∈ marks w, i ∈ is) {maxBytes : Nat} (h4 : 4 ≤ maxBytes)
    (hmax : ∀ i ∈ marks w, utf8Len (token i) ≤ maxBytes) :
    ∃ parts : List Woven, parts.flatten = w ∧
      splitProtectedText (spell token w) maxBytes (is.map token) =
        .ok (parts.map (spell token)) ∧
      ∀ part ∈ parts, utf8Len (spell token part) ≤ maxBytes ∧
        (spell token part = [] → spell token w = []) := by
  unfold splitProtectedText
  rw [if_neg (by omega)]
  split
  · rename_i hnil
    refine ⟨[w], List.flatten_singleton, by rw [List.map_singleton, hnil], ?_⟩
    intro part hpart
    rw [List.mem_singleton.mp hpart, hnil]
    exact ⟨Nat.zero_le _, fun _ => rfl⟩
  · split
    · rename_i hfit
      refine ⟨[w], List.flatten_singleton, rfl, ?_⟩
      intro part hpart
      rw [List.mem_singleton.mp hpart]
      exact ⟨hfit, fun h => h⟩
    · obtain ⟨parts, hparts, hrest, hall⟩ := splitFrom_woven hm hw hn hsub h4 hmax (Nat.le_refl _)
      exact ⟨parts, hparts, hrest, fun part hpart =>
        ⟨(hall part hpart).2, fun h => absurd h (hall part hpart).1⟩⟩

end Woven

/-! ## The spans of the pieces -/

section Spans

variable {span : Nat → ProtectedSpan} {is done : List Nat}

/-- A piece takes the spans whose indices it has. -/
theorem takeSpans_woven (hm : ∀ i, ∃ e, (span i).token = marker i e) {part : Woven}
    (hw : Unnamed part) (hd : ∀ i ∈ marks part, i ∉ done) :
    takeSpans (spell (fun i => (span i).token) part) (is.map span)
        (is.map fun i => decide (i ∈ done)) =
      .ok ((is.filter (· ∈ marks part)).map span,
        is.map fun i => decide (i ∈ done ++ marks part)) := by
  induction is with
  | nil => rfl
  | cons i is ih =>
    have hc := contains_token hm hw (i := i)
    simp only [List.map_cons, takeSpans, ih]
    by_cases hi : i ∈ marks part
    · rw [if_pos (hc.mpr hi), if_neg (by simp [hd i hi])]
      simp [hi]
    · rw [if_neg (by rw [hc]; exact hi)]
      simp [hi]

theorem collectChunks_woven (is done : List Nat) (hm : ∀ i, ∃ e, (span i).token = marker i e) {parts : List Woven}
    (hw : ∀ part ∈ parts, Unnamed part) (hn : (done ++ parts.flatMap marks).Nodup)
    (hall : ∀ i ∈ is, i ∈ done ++ parts.flatMap marks) :
    collectChunks (is.map span) (is.map fun i => decide (i ∈ done))
        (parts.map (spell fun i => (span i).token)) =
      .ok (parts.map fun part =>
        ⟨spell (fun i => (span i).token) part, (is.filter (· ∈ marks part)).map span⟩) := by
  induction parts generalizing done with
  | nil =>
    rw [List.map_nil, collectChunks, if_neg]
    · rfl
    · simpa using hall
  | cons part parts ih =>
    rw [List.flatMap_cons, ← List.append_assoc] at hn hall
    have hd : ∀ i ∈ marks part, i ∉ done := fun i hi hdone =>
      (List.nodup_append.mp (List.nodup_append.mp hn).1).2.2 i hdone i hi rfl
    rw [List.map_cons, collectChunks,
      takeSpans_woven hm (hw part (List.mem_cons_self ..)) hd, Except.ok_bind]
    simp only
    rw [ih _ (fun p hp => hw p (List.mem_cons_of_mem _ hp)) hn hall, Except.ok_bind]
    rfl

end Spans

/-- In a list without repetition the members of a middle part are that part. -/
theorem filter_part {a b c : List Nat} (hn : (a ++ b ++ c).Nodup) :
    (a ++ b ++ c).filter (· ∈ b) = b := by
  rw [List.append_assoc, List.nodup_append] at hn
  obtain ⟨-, hbc, hab⟩ := hn
  have ha : a.filter (· ∈ b) = [] := List.filter_eq_nil_iff.mpr fun i hi => by
    simpa using fun hb => hab i hi i (List.mem_append_left _ hb) rfl
  have hc : c.filter (· ∈ b) = [] := List.filter_eq_nil_iff.mpr fun i hi => by
    simpa using fun hb => (List.nodup_append.mp hbc).2.2 i hb i hi rfl
  have hb : b.filter (· ∈ b) = b := List.filter_eq_self.mpr (by simp)
  rw [List.filter_append, List.filter_append, ha, hb, hc, List.nil_append, List.append_nil]

theorem filter_flatten {parts : List Woven} {part : Woven} (hpart : part ∈ parts)
    (hn : (marks parts.flatten).Nodup) :
    (marks parts.flatten).filter (· ∈ marks part) = marks part := by
  obtain ⟨before, after, rfl⟩ := List.append_of_mem hpart
  have he : marks (before ++ part :: after).flatten =
      marks before.flatten ++ marks part ++ marks after.flatten := by simp
  rw [he] at hn ⊢
  exact filter_part hn

/-- Without repetition an index is in one part. -/
theorem part_unique {parts : List Woven} (hn : (parts.flatMap marks).Nodup) {k l i : Nat}
    {part other : Woven} (hk : parts[k]? = some part) (hl : parts[l]? = some other)
    (hi : i ∈ marks part) (hj : i ∈ marks other) : l = k := by
  have hp := (List.nodup_flatMap.mp hn).2
  obtain ⟨hk', rfl⟩ := List.getElem?_eq_some_iff.mp hk
  obtain ⟨hl', rfl⟩ := List.getElem?_eq_some_iff.mp hl
  rw [List.pairwise_iff_getElem] at hp
  rcases Nat.lt_trichotomy k l with h | h | h
  · exact absurd hj (hp k l hk' hl' h hi)
  · exact h.symm
  · exact absurd hi (hp l k hl' hk' h hj)

theorem mapM_ok {ε α β γ : Type} {f : β → Except ε γ} {g : α → β} {h : α → γ} {l : List α}
    (hf : ∀ a ∈ l, f (g a) = .ok (h a)) : (l.map g).mapM f = .ok (l.map h) := by
  induction l with
  | nil => rfl
  | cons a l ih =>
    rw [List.map_cons, List.mapM_cons, hf a (List.mem_cons_self ..), Except.ok_bind,
      ih fun b hb => hf b (List.mem_cons_of_mem _ hb)]
    rfl

/-! ## The result -/

/-- What `chunks` promises of the chunks of `p`, whose text restored unchanged is `whole`. -/
structure Partition (p : ProtectedSource) (whole : Str) (maxBytes : Nat)
    (chunks : List ProtectedSource) : Prop where
  /-- The texts in order are the text. -/
  text : chunks.flatMap (·.text) = p.text
  /-- Each is within the limit, and empty only if all is. -/
  bounded : ∀ chunk ∈ chunks, utf8Len chunk.text ≤ maxBytes ∧ (chunk.text = [] → p.text = [])
  /-- The spans in order are the spans. -/
  spans : chunks.flatMap (·.spans) = p.spans
  /-- A marker lies in one chunk, which lists its span, and in no other one. -/
  marker : ∀ span ∈ p.spans, ∃ (k : Nat) (chunk : ProtectedSource), chunks[k]? = some chunk ∧
    contains chunk.text span.token = true ∧ span ∈ chunk.spans ∧
    ∀ (l : Nat) (other : ProtectedSource), chunks[l]? = some other →
      contains other.text span.token = true ∨ span ∈ other.spans → l = k
  /-- The chunks restored unchanged are, in order, the text restored unchanged. -/
  restored : ∃ outs, chunks.mapM ProtectedSource.restoreIdentity = .ok outs ∧ outs.flatten = whole

theorem chunks_woven {span : Nat → ProtectedSpan}
    (hm : ∀ i, ∃ e, (span i).token = marker i e) {w : Woven} (hw : Unnamed w)
    (hn : (marks w).Nodup) {maxBytes : Nat} (h4 : 4 ≤ maxBytes)
    (hmax : ∀ i ∈ marks w, utf8Len (span i).token ≤ maxBytes) :
    ∃ parts : List Woven, parts.flatten = w ∧
      (sourceOf span w).chunks maxBytes = .ok (parts.map (sourceOf span)) ∧
      ∀ part ∈ parts, utf8Len (sourceOf span part).text ≤ maxBytes ∧
        ((sourceOf span part).text = [] → (sourceOf span w).text = []) := by
  obtain ⟨parts, rfl, hsplit, hbound⟩ := splitProtectedText_woven hm hw hn (fun i hi => hi) h4 hmax
  refine ⟨parts, rfl, ?_, hbound⟩
  have hchunks := collectChunks_woven (marks parts.flatten) [] hm
    (fun part hpart => hw.of_infix (List.infix_of_mem_flatten hpart))
    (by simpa [← marks_flatten] using hn) (by simp [marks_flatten])
  have hlist : parts.map (fun part => ProtectedSource.mk (spell (fun i => (span i).token) part)
      (((marks parts.flatten).filter (· ∈ marks part)).map span)) = parts.map (sourceOf span) :=
    List.map_congr_left fun part hpart => by rw [filter_flatten hpart hn, sourceOf]
  have hunused : List.replicate ((marks parts.flatten).map span).length false =
      (marks parts.flatten).map fun i => decide (i ∈ []) :=
    (List.eq_replicate_iff.mpr ⟨by simp, by simp⟩).symm
  rw [ProtectedSource.chunks, sourceOf]
  simp only [List.map_map, Function.comp_def]
  rw [hsplit, Except.ok_bind, hunused, hchunks, hlist]

theorem partition_woven {span : Nat → ProtectedSpan}
    (hm : ∀ i, ∃ e, (span i).token = marker i e) {parts : List Woven} (hw : Unnamed parts.flatten)
    (hn : (marks parts.flatten).Nodup) {maxBytes : Nat}
    (hbound : ∀ part ∈ parts, utf8Len (sourceOf span part).text ≤ maxBytes ∧
      ((sourceOf span part).text = [] → (sourceOf span parts.flatten).text = [])) :
    Partition (sourceOf span parts.flatten)
      (spell (fun i => (span i).replacement) parts.flatten) maxBytes
      (parts.map (sourceOf span)) := by
  have hwp : ∀ part ∈ parts, Unnamed part := fun part hpart =>
    hw.of_infix (List.infix_of_mem_flatten hpart)
  have hnp : (parts.flatMap marks).Nodup := by rwa [← marks_flatten]
  refine ⟨?_, ?_, ?_, ?_, ?_⟩
  · simp only [sourceOf, List.flatMap_map, spell_flatten]
  · intro chunk hchunk
    obtain ⟨part, hpart, rfl⟩ := List.mem_map.mp hchunk
    exact hbound part hpart
  · simp only [sourceOf, List.flatMap_map, marks_flatten, List.map_flatMap]
  · intro s hs
    obtain ⟨i, hi, rfl⟩ := List.mem_map.mp hs
    obtain ⟨part, hpart, hip⟩ := List.mem_flatMap.mp (marks_flatten parts ▸ hi)
    obtain ⟨k, hk⟩ := List.mem_iff_getElem?.mp hpart
    refine ⟨k, sourceOf span part, by rw [List.getElem?_map, hk]; rfl,
      (contains_token hm (hwp part hpart)).mpr hip,
      List.mem_map_of_mem hip, ?_⟩
    intro l other hl hor
    rw [List.getElem?_map] at hl
    obtain ⟨part', hl', rfl⟩ := Option.map_eq_some_iff.mp hl
    refine part_unique hnp hk hl' hip ?_
    rcases hor with hor | hor
    · exact (contains_token hm
        (hwp part' (List.mem_of_getElem? hl'))).mp hor
    · -- equal spans have equal tokens, and a token gives its index
      obtain ⟨j, hj, he⟩ := List.mem_map.mp hor
      obtain ⟨e, hi'⟩ := hm i
      obtain ⟨e', hj'⟩ := hm j
      have htoken : marker j e' = marker i e := by rw [← hj', he, hi']
      obtain rfl := stub_inj (T := marker i e) (stub_starts_marker i e)
        (htoken ▸ stub_starts_marker j e')
      exact hj
  · refine ⟨parts.map (spell fun i => (span i).replacement), mapM_ok fun part hpart => ?_, ?_⟩
    · exact restore_woven hm (hwp part hpart) ((List.nodup_flatMap.mp hnp).1 part hpart)
    · rw [← List.flatMap_def, spell_flatten]

section
variable [UnicodeTables]

/-- Any limit that a character and every marker fit in cuts the protected text into chunks. -/
theorem chunks_partition {source : Str} (hsource : contains source markerName = false)
    (sourceLocale targetLocale : Option Str) {glossary : Option Glossary}
    (hg : ∀ g, glossary = some g → g.validate = .ok ()) :
    ∃ p whole, buildProtectedSource source sourceLocale targetLocale glossary = .ok p ∧
      p.restoreIdentity = .ok whole ∧
      ∀ maxBytes, 4 ≤ maxBytes → (∀ span ∈ p.spans, utf8Len span.token ≤ maxBytes) →
        ∃ chunks, p.chunks maxBytes = .ok chunks ∧ Partition p whole maxBytes chunks := by
  obtain ⟨p, hp⟩ := protectSource_ok source sourceLocale targetLocale hg
  refine ⟨p, ?_⟩
  obtain rfl := buildProtectedSource_eq hp
  generalize selectedCandidates source sourceLocale targetLocale glossary = cs at hp
  have hm : ∀ i, ∃ e, (spanFor source cs i).token = marker i e := spanFor_marker
  have hw : Unnamed (inserted source 0 0 cs) := inserted_unnamed hsource 0 0
  have hn : (marks (inserted source 0 0 cs)).Nodup := by
    rw [inserted_marks]
    exact List.nodup_range'
  have hp' : ProtectedSource.mk (insertTokens source 0 0 cs).1 (insertTokens source 0 0 cs).2 =
      sourceOf (spanFor source cs) (inserted source 0 0 cs) := by
    simp only [sourceOf, spanFor_token, inserted_text, inserted_spans]
  rw [hp'] at hp ⊢
  refine ⟨_, hp, restore_woven hm hw hn, fun maxBytes h4 hmax => ?_⟩
  obtain ⟨parts, hparts, hchunks, hbound⟩ := chunks_woven hm hw hn h4 fun i hi =>
    hmax _ (List.mem_map_of_mem hi)
  refine ⟨_, hchunks, ?_⟩
  rw [← hparts] at hw hn hbound ⊢
  exact partition_woven hm hw hn hbound

end

/-- A code span between two sentences, in chunks of thirty bytes. -/
theorem chunks_partition_code : ∃ chunks,
    (@protectSourceText asciiTables "One `x`. Two.".toList).chunks 30 = .ok chunks ∧
    ∃ whole, Partition (@protectSourceText asciiTables "One `x`. Two.".toList) whole 30 chunks := by
  obtain ⟨p, whole, hp, -, h⟩ :=
    @chunks_partition asciiTables "One `x`. Two.".toList (by decide) none none none (by simp)
  obtain rfl := Except.ok.inj ((@protectSourceText_ok asciiTables _).symm.trans hp)
  obtain ⟨chunks, hc, hpart⟩ := h 30 (by decide) (by decide)
  exact ⟨chunks, hc, whole, hpart⟩

end LinguaMesh
