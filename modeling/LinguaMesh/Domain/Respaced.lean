import LinguaMesh.Domain.Choice
import LinguaMesh.Domain.Words

/-!
# Sources with other blanks

The scanners look for characters that are not blank. So in two sources that differ in one
gap the automatic candidates correspond (`movable_automatic`), and the protected spans of one
source have the words of the protected spans of the other.
-/

namespace LinguaMesh

open Search Greedy

variable {x g w y u pat : Str}

/-- A span of `x ++ (g ++ y)` with another gap in place of `g`. -/
def movedSpan (x g w : Str) (span : Nat × Nat) : Nat × Nat :=
  (movedStart x g w span.1, movedStop x g w span.2)

/-- The span begins and ends beside the gap. -/
def Beside (x g : Str) (span : Nat × Nat) : Prop := StartsBeside x g span.1 ∧ StopsBeside x g span.2

/-- Another gap moves the spans that a scanner gives and changes nothing else. -/
def Movable (scan : Str → List (Nat × Nat)) : Prop :=
  ∀ x g w y : Str, Gap x g y → Gap x w y → ∀ span ∈ scan (x ++ (g ++ y)),
    Beside x g span ∧ movedSpan x g w span ∈ scan (x ++ (w ++ y))

theorem Movable.append {scan scan' : Str → List (Nat × Nat)} (h : Movable scan) (h' : Movable scan') :
    Movable fun source => scan source ++ scan' source := by
  intro x g w y hg hg' span hspan
  rcases List.mem_append.mp hspan with hspan | hspan
  · exact (h x g w y hg hg' span hspan).imp_right fun hmem => List.mem_append_left _ hmem
  · exact (h' x g w y hg hg' span hspan).imp_right fun hmem => List.mem_append_right _ hmem

/-! ## Characters that are not blank -/

theorem blank_of_printable {c : Char} (hlo : 0x20 < c.val) (hhi : c.val < 0x7F) :
    isWhitespace c = false := by
  unfold isWhitespace
  simp only [Bool.or_eq_false_iff, Bool.and_eq_false_iff, decide_eq_false_iff_not,
    beq_eq_false_iff_ne, ne_eq, UInt32.le_iff_toNat_le, UInt32.lt_iff_toNat_lt, ← UInt32.toNat_inj] at *
  simp at *
  omega

theorem blank_of_alphanum {c : Char} (h : c.isAlphanum = true) : isWhitespace c = false := by
  have hrange : 0x20 < c.val ∧ c.val < 0x7F := by
    delta Char.isAlphanum Char.isAlpha Char.isUpper Char.isLower Char.isDigit at h
    simp only [Bool.or_eq_true, Bool.and_eq_true, decide_eq_true_eq, UInt32.le_iff_toNat_le,
      UInt32.lt_iff_toNat_lt, ge_iff_le] at *
    simp at *
    omega
  exact blank_of_printable hrange.1 hrange.2

theorem blank_of_body {c : Char}
    (h : (c.isAlphanum || c == '_' || c == '.' || c == '-') = true) : isWhitespace c = false := by
  simp only [Bool.or_eq_true, beq_iff_eq] at h
  rcases h with ((h | rfl) | rfl) | rfl
  · exact blank_of_alphanum h
  all_goals rfl

theorem blank_of_local {c : Char} (h : isEmailLocal c = true) : isWhitespace c = false := by
  simp only [isEmailLocal, Bool.or_eq_true, beq_iff_eq] at h
  rcases h with (((h | rfl) | rfl) | rfl) | rfl
  · exact blank_of_alphanum h
  all_goals rfl

theorem blank_of_domain {c : Char} (h : isEmailDomain c = true) : isWhitespace c = false := by
  simp only [isEmailDomain, Bool.or_eq_true, beq_iff_eq] at h
  rcases h with ((h | rfl) | rfl) | rfl
  · exact blank_of_alphanum h
  all_goals rfl

/-! ## Code -/

theorem fencedFrom_succ (source : Str) (fuel cursor : Nat) :
    fencedFrom source (fuel + 1) cursor =
      match findFrom fence source cursor with
      | none => []
      | some opened =>
        match findFrom fence source (opened + 3) with
        | none => []
        | some closed => (opened, closed + 3) :: fencedFrom source fuel (closed + 3) := by
  rw [fencedFrom]
  unfold findFrom
  cases find fence (source.drop cursor) with
  | none => rfl
  | some relativeOpen =>
    simp only [Option.map_some]
    cases find fence (source.drop (cursor + relativeOpen + 3)) <;> rfl

theorem inlineFrom_succ (source : Str) (fuel cursor : Nat) :
    inlineFrom source (fuel + 1) cursor =
      match findFrom ['`'] source cursor with
      | none => []
      | some opened =>
        if fence.isPrefixOf (source.drop opened) then inlineFrom source fuel (opened + 3)
        else
          match findFrom ['`'] source (opened + 1) with
          | none => []
          | some closed => (opened, closed + 1) :: inlineFrom source fuel (closed + 1) := by
  rw [inlineFrom]
  unfold findFrom
  cases find ['`'] (source.drop cursor) with
  | none => rfl
  | some relativeOpen =>
    simp only [Option.map_some]
    split
    · rfl
    · cases find ['`'] (source.drop (cursor + relativeOpen + 1)) <;> rfl

theorem fencedFrom_moved (hg : Gap x g y) (hg' : Gap x w y) {fuel cursor : Nat}
    (hcursor : StopsBeside x g cursor) :
    fencedFrom (x ++ (w ++ y)) fuel (movedStop x g w cursor) =
        (fencedFrom (x ++ (g ++ y)) fuel cursor).map (movedSpan x g w) ∧
      ∀ span ∈ fencedFrom (x ++ (g ++ y)) fuel cursor, Beside x g span := by
  induction fuel generalizing cursor with
  | zero => exact ⟨rfl, fun span hspan => by cases hspan⟩
  | succ fuel ih =>
    have hsolid : Solid fence := by decide
    have hmoved {cursor : Nat} (h : StopsBeside x g cursor) :=
      findFrom_moved (hg.notMem hsolid) (hg'.notMem hsolid) (by decide) hg.apart hg'.apart h
    rw [fencedFrom_succ, fencedFrom_succ, (hmoved hcursor).1]
    cases hopened : findFrom fence (x ++ (g ++ y)) cursor with
    | none => exact ⟨rfl, fun span hspan => by cases hspan⟩
    | some opened =>
      obtain ⟨hadd, hstart, hstop⟩ := movedStop_add (w := w) (show 0 < 3 by omega)
        ((hmoved hcursor).2 opened hopened).2
      simp only [Option.map_some]
      rw [← hadd, (hmoved hstop).1]
      cases hclosed : findFrom fence (x ++ (g ++ y)) (opened + 3) with
      | none => exact ⟨rfl, fun span hspan => by cases hspan⟩
      | some closed =>
        obtain ⟨hadd', -, hstop'⟩ := movedStop_add (w := w) (show 0 < 3 by omega)
          ((hmoved hstop).2 closed hclosed).2
        obtain ⟨heq, hbeside⟩ := ih hstop'
        simp only [Option.map_some, List.map_cons]
        rw [← hadd', heq]
        exact ⟨rfl, List.forall_mem_cons.mpr ⟨⟨hstart, hstop'⟩, hbeside⟩⟩

/-- What begins at a position begins at the moved position. -/
theorem starts_moved (hsolid : Solid pat) (hg : Gap x g y) (hg' : Gap x w y) {i : Nat}
    (hi : StartsBeside x g i) :
    pat.isPrefixOf ((x ++ (w ++ y)).drop (movedStart x g w i)) =
        pat.isPrefixOf ((x ++ (g ++ y)).drop i) ∧
      (pat.isPrefixOf ((x ++ (g ++ y)).drop i) = true →
        i + pat.length ≤ x.length ∨ x.length + g.length ≤ i) := by
  rw [Bool.eq_iff_iff]
  simp only [List.isPrefixOf_iff_prefix]
  rcases hi with hi | hi
  · have hx : x ≠ [] := List.ne_nil_of_length_pos (by omega)
    rw [movedStart_before hi, drop_before_gap hi.le, drop_before_gap hi.le,
      prefix_gap (hg.notMem hsolid) (hg.full hx), prefix_gap (hg'.notMem hsolid) (hg'.full hx)]
    refine ⟨Iff.rfl, fun h => .inl ?_⟩
    have hle := h.length_le
    rw [List.length_drop] at hle
    omega
  · obtain ⟨k, rfl⟩ := Nat.exists_eq_add_of_le hi
    rw [movedStart_after, drop_after_gap, drop_after_gap]
    exact ⟨Iff.rfl, fun _ => .inr hi⟩

theorem inlineFrom_moved (hg : Gap x g y) (hg' : Gap x w y) {fuel cursor : Nat}
    (hcursor : StopsBeside x g cursor) :
    inlineFrom (x ++ (w ++ y)) fuel (movedStop x g w cursor) =
        (inlineFrom (x ++ (g ++ y)) fuel cursor).map (movedSpan x g w) ∧
      ∀ span ∈ inlineFrom (x ++ (g ++ y)) fuel cursor, Beside x g span := by
  induction fuel generalizing cursor with
  | zero => exact ⟨rfl, fun span hspan => by cases hspan⟩
  | succ fuel ih =>
    have hsolid : Solid ['`'] := by decide
    have hmoved {cursor : Nat} (h : StopsBeside x g cursor) :=
      findFrom_moved (hg.notMem hsolid) (hg'.notMem hsolid) (by decide) hg.apart hg'.apart h
    rw [inlineFrom_succ, inlineFrom_succ, (hmoved hcursor).1]
    cases hopened : findFrom ['`'] (x ++ (g ++ y)) cursor with
    | none => exact ⟨rfl, fun span hspan => by cases hspan⟩
    | some opened =>
      obtain ⟨hadd, hstart, hstop⟩ := movedStop_add (w := w) (show 0 < 1 by omega)
        ((hmoved hcursor).2 opened hopened).2
      obtain ⟨hfence, hlong⟩ := starts_moved (show Solid fence by decide) hg hg' hstart
      simp only [Option.map_some]
      rw [hfence]
      split
      · rename_i hf
        obtain ⟨hadd', -, hstop'⟩ := movedStop_add (w := w) (show 0 < 3 by omega) (hlong hf)
        rw [← hadd']
        exact ih hstop'
      rw [← hadd, (hmoved hstop).1]
      cases hclosed : findFrom ['`'] (x ++ (g ++ y)) (opened + 1) with
      | none => exact ⟨rfl, fun span hspan => by cases hspan⟩
      | some closed =>
        obtain ⟨hadd', -, hstop'⟩ := movedStop_add (w := w) (show 0 < 1 by omega)
          ((hmoved hstop).2 closed hclosed).2
        obtain ⟨heq, hbeside⟩ := ih hstop'
        simp only [Option.map_some, List.map_cons]
        rw [← hadd', heq]
        exact ⟨rfl, List.forall_mem_cons.mpr ⟨⟨hstart, hstop'⟩, hbeside⟩⟩

/-- A scan that has enough fuel gives the same with more. -/
theorem fuel_enough {f : Nat → List (Nat × Nat)} {n : Nat} (h : ∀ m, n ≤ m → f (m + 1) = f m) {m : Nat}
    (hm : n ≤ m) : f m = f n := by
  induction m, hm using Nat.le_induction with
  | base => rfl
  | succ m hm ih => rw [h m hm, ih]

/-- A scan by rounds, if each round moves. -/
theorem movable_rounds {rounds : Str → Nat → Nat → List (Nat × Nat)}
    (hfuel : ∀ {source : Str} {fuel cursor : Nat}, source.length < cursor + fuel →
      rounds source (fuel + 1) cursor = rounds source fuel cursor)
    (hmoved : ∀ {x g w y : Str}, Gap x g y → Gap x w y → ∀ {fuel cursor : Nat},
      StopsBeside x g cursor →
      rounds (x ++ (w ++ y)) fuel (movedStop x g w cursor) =
          (rounds (x ++ (g ++ y)) fuel cursor).map (movedSpan x g w) ∧
        ∀ span ∈ rounds (x ++ (g ++ y)) fuel cursor, Beside x g span) :
    Movable fun source => rounds source (source.length + 1) 0 := by
  intro x g w y hg hg' span hspan
  have henough (source : Str) {fuel : Nat} (h : source.length + 1 ≤ fuel) :
      rounds source fuel 0 = rounds source (source.length + 1) 0 :=
    fuel_enough (f := fun fuel => rounds source fuel 0) (fun m hm => hfuel (by omega)) h
  let fuel := max ((x ++ (g ++ y)).length + 1) ((x ++ (w ++ y)).length + 1)
  obtain ⟨heq, hbeside⟩ := @hmoved _ _ _ _ hg hg' fuel 0 (.inl (Nat.zero_le _))
  rw [movedStop_before (Nat.zero_le _), henough _ (le_max_left _ _), henough _ (le_max_right _ _)] at heq
  rw [henough _ (le_max_left _ _)] at hbeside
  refine ⟨hbeside span hspan, ?_⟩
  show _ ∈ rounds (x ++ (w ++ y)) _ 0
  rw [heq]
  exact List.mem_map_of_mem hspan

theorem movable_fenced : Movable collectFencedCodeCandidates :=
  movable_rounds fencedFrom_fuel fencedFrom_moved

theorem movable_inline : Movable collectInlineCodeCandidates :=
  movable_rounds inlineFrom_fuel inlineFrom_moved

/-! ## Placeholders and addresses -/

/-- What a scan that looks at the text from each position on has to do, with the end of the match
relative to the position. -/
structure MovableEnd (ending : Str → Option Nat) : Prop where
  pos : ∀ {r : Str} {n : Nat}, ending r = some n → 0 < n
  blank : ∀ {c : Char} {r : Str}, isWhitespace c = true → ending (c :: r) = none
  moved : ∀ {u g w y : Str} {n : Nat}, u ≠ [] → Gap u g y → Gap u w y →
    ending (u ++ (g ++ y)) = some n →
      StopsBeside u g n ∧ ending (u ++ (w ++ y)) = some (movedStop u g w n)

/-- A position is before the gap, in it or after it. -/
theorem position_cases (x g : Str) (i : Nat) :
    i < x.length ∨ (∃ k, k < g.length ∧ i = x.length + k) ∨ ∃ k, i = x.length + g.length + k := by
  rcases Nat.lt_or_ge i x.length with h | h
  · exact .inl h
  rcases Nat.lt_or_ge i (x.length + g.length) with h' | h'
  · exact .inr (.inl ⟨i - x.length, by omega, by omega⟩)
  · exact .inr (.inr ⟨i - (x.length + g.length), by omega⟩)

theorem drop_in_gap {k : Nat} (hk : k < g.length) :
    ∃ c ∈ g, ∃ r, (x ++ (g ++ y)).drop (x.length + k) = c :: r := by
  refine ⟨g[k], List.getElem_mem hk, g.drop (k + 1) ++ y, ?_⟩
  rw [List.drop_length_add_append, List.drop_append_of_le_length hk.le, List.drop_eq_getElem_cons hk]
  rfl

theorem MovableEnd.movable {ending : Str → Option Nat} (h : MovableEnd ending) :
    Movable fun source => (List.range source.length).filterMap fun start =>
      (ending (source.drop start)).map fun relative => (start, start + relative) := by
  intro x g w y hg hg' span hspan
  obtain ⟨start, hstart, hspan⟩ := List.mem_filterMap.mp hspan
  obtain ⟨n, hn, rfl⟩ := Option.map_eq_some_iff.mp hspan
  have hpos := h.pos hn
  have hrange := List.mem_range.mp hstart
  simp only [List.length_append] at hrange
  rcases position_cases x g start with hlt | ⟨k, hk, rfl⟩ | ⟨k, rfl⟩
  · have hx : x ≠ [] := List.ne_nil_of_length_pos (by omega)
    have hu : x.drop start ≠ [] := by
      rw [Ne, List.drop_eq_nil_iff]
      omega
    have hlen : (x.drop start).length + start = x.length := by
      rw [List.length_drop]
      omega
    rw [drop_before_gap hlt.le] at hn
    obtain ⟨hstop, hn'⟩ := h.moved hu (hg.sub fun hnil => absurd hnil hx)
      (hg'.sub fun hnil => absurd hnil hx) hn
    refine ⟨⟨.inl hlt, ?_⟩, List.mem_filterMap.mpr ⟨start, ?_, ?_⟩⟩
    · rcases hstop with hstop | hstop
      · exact .inl (by simp only; omega)
      · exact .inr (by simp only; omega)
    · rw [List.mem_range, List.length_append]
      omega
    · rw [drop_before_gap hlt.le, hn', Option.map_some, movedSpan, movedStart_before hlt]
      refine congrArg (fun i => some (start, i)) ?_
      unfold movedStop
      rcases hstop with hstop | hstop
      · rw [if_pos hstop, if_pos (by simp only; omega)]
      · rw [if_neg (by omega), if_neg (by simp only; omega)]
        simp only
        omega
  · obtain ⟨c, hc, r, hr⟩ := drop_in_gap (x := x) (y := y) hk
    rw [hr, h.blank (hg.blank c hc)] at hn
    cases hn
  · rw [drop_after_gap] at hn
    refine ⟨⟨.inr (by simp only; omega), .inr (by simp only; omega)⟩,
      List.mem_filterMap.mpr ⟨x.length + w.length + k, ?_, ?_⟩⟩
    · rw [List.mem_range, List.length_append, List.length_append]
      omega
    · rw [drop_after_gap, hn, Option.map_some, movedSpan, movedStart_after]
      simp only
      rw [show x.length + g.length + k + n = x.length + g.length + (k + n) by omega,
        movedStop_after (by omega)]
      rw [show x.length + w.length + k + n = x.length + w.length + (k + n) by omega]

theorem not_start_of_blank {c d : Char} {pat r : Str} (hc : isWhitespace c = true)
    (hd : isWhitespace d = false) : (d :: pat).isPrefixOf (c :: r) = false := by
  rw [Bool.eq_false_iff, Ne, List.isPrefixOf_iff_prefix, List.cons_prefix_cons]
  rintro ⟨rfl, -⟩
  rw [hc] at hd
  cases hd

/-- Something that ends with a pattern. -/
theorem find_add_moved (hsolid : Solid pat) (hne : pat ≠ []) (hg : Gap u g y) (hg' : Gap u w y)
    {m : Nat} (hm : find pat (u ++ (g ++ y)) = some m) :
    find pat (u ++ (w ++ y)) = some (movedStart u g w m) ∧
      StopsBeside u g (m + pat.length) ∧
      movedStart u g w m + pat.length = movedStop u g w (m + pat.length) := by
  obtain ⟨hfind, hbeside⟩ :=
    find_moved (hg.notMem hsolid) (hg'.notMem hsolid) hne hg.apart hg'.apart hm
  obtain ⟨hadd, -, hstop⟩ := movedStop_add (w := w) (List.length_pos_of_ne_nil hne) hbeside
  exact ⟨hfind, hstop, hadd.symm⟩

theorem head_gap (hu : u ≠ []) (r : Str) : (u ++ r).head? = u.head? := by
  obtain ⟨c, u, rfl⟩ := List.exists_cons_of_ne_nil hu
  rfl

theorem start_gap (hsolid : Solid pat) (hu : u ≠ []) (hg : Gap u g y) :
    pat.isPrefixOf (u ++ (g ++ y)) = pat.isPrefixOf u := by
  rw [Bool.eq_iff_iff, List.isPrefixOf_iff_prefix, List.isPrefixOf_iff_prefix]
  exact prefix_gap (hg.notMem hsolid) (hg.full hu)

/-- The body of a placeholder is not cut by a gap. -/
theorem body_gap (hu : u ≠ []) (hg : Gap u g y) {m : Nat} (hm : find "\x7d".toList (u ++ (g ++ y)) = some m)
    (hbody : isPlaceholderBody (slice (u ++ (g ++ y)) 1 m) = true) : m < u.length := by
  obtain ⟨-, hbeside⟩ := find_moved (w := g) (hg.notMem (by decide)) (hg.notMem (by decide))
    (by decide) hg.apart hg.apart hm
  have hle := find_le_length hm
  simp only [List.length_append, show "\x7d".toList.length = 1 from rfl] at hbeside hle
  rcases hbeside with hbeside | hbeside
  · omega
  rcases hg.full hu with hne | rfl
  · obtain ⟨c, g, rfl⟩ := List.exists_cons_of_ne_nil hne
    have hmem : c ∈ slice (u ++ (c :: g ++ y)) 1 m := by
      have hcut : slice (u ++ (c :: g ++ y)) 1 m = slice u 1 m ++ (c :: g ++ y).take (m - u.length) := by
        unfold slice
        rw [List.take_append, List.take_of_length_le (by omega)]
        exact List.drop_append_of_le_length (List.length_pos_of_ne_nil hu)
      rw [hcut]
      refine List.mem_append_right _ ?_
      obtain ⟨k, hk⟩ : ∃ k, m - u.length = k + 1 := ⟨m - u.length - 1, by
        simp only [List.length_cons] at hbeside
        omega⟩
      rw [hk]
      exact List.mem_cons_self
    have hblank := hg.blank c List.mem_cons_self
    have hall := (Bool.and_eq_true _ _).mp hbody |>.2
    have hc := List.all_eq_true.mp hall c hmem
    rw [blank_of_body hc] at hblank
    cases hblank
  · simp only [List.length_nil] at hle
    omega

/-- What follows a first character. -/
theorem head_any_gap {f : Char → Bool} (hf : ∀ c, isWhitespace c = true → f c = false) {c : Char}
    (hg : Gap (c :: u) g y) : (u ++ (g ++ y)).head?.any f = u.head?.any f := by
  cases u with
  | cons d u => rfl
  | nil =>
    cases g with
    | cons d g => exact hf d (hg.blank d List.mem_cons_self)
    | nil =>
      obtain rfl := (hg.full (List.cons_ne_nil _ _)).resolve_left (by simp)
      rfl

/-- The end of a placeholder in parentheses is not moved to its start. -/
theorem percent_inside (hlen : 2 ≤ u.length) (hg : Gap u g y) (hg' : Gap u w y) {close : Nat}
    (hclose : find ")s".toList (u ++ (g ++ y)) = some close) :
    min close 3 ≤ movedStart u g w close := by
  have hu : u ≠ [] := List.ne_nil_of_length_pos (by omega)
  have hsolid : Solid ")s".toList := by decide
  obtain ⟨-, hbeside⟩ := find_moved (hg.notMem hsolid) (hg'.notMem hsolid) (by decide) hg.apart
    hg'.apart hclose
  have hle := find_le_length hclose
  simp only [List.length_append, show ")s".toList.length = 2 from rfl] at hbeside hle
  unfold movedStart
  split
  · omega
  rcases hg'.full hu with hne | rfl
  · have hpos := List.length_pos_of_ne_nil hne
    omega
  · simp only [List.length_nil] at hle
    omega

theorem percent_moved (hu : u ≠ []) (hg : Gap u g y) (hg' : Gap u w y) {n : Nat}
    (hn : placeholderPercentEnd (u ++ (g ++ y)) = some n) :
    StopsBeside u g n ∧ placeholderPercentEnd (u ++ (w ++ y)) = some (movedStop u g w n) := by
  obtain ⟨d, u, rfl⟩ := List.exists_cons_of_ne_nil hu
  have hpercent : d = '%' := by
    by_contra hd
    simp [placeholderPercentEnd, hd] at hn
  subst hpercent
  have hkind : ∀ c, isWhitespace c = true → ("sduif%@".toList.contains c) = false := by
    intro c hc
    rw [List.contains_eq_mem, decide_eq_false_iff_not]
    intro hmem
    have hsolid : Solid "sduif%@".toList := by decide
    rw [hsolid c hmem] at hc
    cases hc
  have hstart {g : Str} (hg : Gap ('%' :: u) g y) :=
    start_gap (show Solid "%(".toList by decide) hu hg
  unfold placeholderPercentEnd at hn ⊢
  simp only [List.cons_append] at hn ⊢ hstart
  rw [head_any_gap hkind hg, hstart hg] at hn
  rw [head_any_gap hkind hg', hstart hg']
  split at hn
  · rename_i h
    obtain rfl := Option.some.inj hn
    rw [if_pos h]
    have hlen : 2 ≤ ('%' :: u).length := by
      cases u with
      | nil => cases h
      | cons c u => simp
    exact ⟨.inl hlen, congrArg some (movedStop_before hlen).symm⟩
  rename_i h1
  rw [if_neg h1]
  split at hn
  · rename_i h
    rw [if_pos h]
    have hlen := (List.isPrefixOf_iff_prefix.mp h).length_le
    split at hn
    · cases hn
    rename_i close hclose
    split at hn
    · rename_i hgt
      obtain rfl := Option.some.inj hn
      obtain ⟨hfind, hstop, hadd⟩ := find_add_moved (by decide) (by decide) hg hg' hclose
      refine ⟨hstop, ?_⟩
      simp only [List.cons_append] at hfind
      rw [hfind]
      have hgt' : 2 < movedStart ('%' :: u) g w close := by
        have hlt := percent_inside (by simpa using hlen) hg hg' hclose
        omega
      simp only [hgt', if_true]
      exact congrArg some hadd
    · cases hn
  · cases hn

/-- `placeholderEnd` as a scan from a position. -/
theorem movableEnd_placeholder : MovableEnd placeholderEnd := by
  refine ⟨fun h => (placeholderEnd_spec h).1, fun {c r} hc => ?_, fun {u g w y n} hu hg hg' hn => ?_⟩
  · unfold placeholderEnd
    have hhead (d : Char) (hd : isWhitespace d = false) : (c :: r).head? ≠ some d := by
      rintro h
      rw [List.head?_cons, Option.some.injEq] at h
      rw [← h, hc] at hd
      cases hd
    have hstart (d : Char) (pat : Str) (hd : isWhitespace d = false) :
        ¬ (d :: pat).isPrefixOf (c :: r) = true := by
      rw [not_start_of_blank hc hd]
      decide
    rw [show "\x7b\x7b".toList = ['\x7b', '\x7b'] from rfl, show "$\x7b".toList = ['$', '\x7b'] from rfl,
      if_neg (hstart _ _ rfl), if_neg (hstart _ _ rfl), if_neg (hhead _ rfl), if_neg (hhead _ rfl)]
  · unfold placeholderEnd at hn ⊢
    rw [start_gap (by decide) hu hg, start_gap (by decide) hu hg, head_gap hu] at hn
    rw [start_gap (by decide) hu hg', start_gap (by decide) hu hg', head_gap hu]
    split at hn
    · rename_i h
      rw [if_pos h]
      obtain ⟨m, hm, rfl⟩ := Option.map_eq_some_iff.mp hn
      obtain ⟨hfind, hstop, hadd⟩ := find_add_moved (by decide) (by decide) hg hg' hm
      rw [hfind]
      exact ⟨hstop, congrArg some hadd⟩
    rename_i h1
    rw [if_neg h1]
    split at hn
    · rename_i h
      rw [if_pos h]
      obtain ⟨m, hm, rfl⟩ := Option.map_eq_some_iff.mp hn
      obtain ⟨hfind, hstop, hadd⟩ := find_add_moved (by decide) (by decide) hg hg' hm
      rw [hfind]
      exact ⟨hstop, congrArg some hadd⟩
    rename_i h2
    rw [if_neg h2]
    split at hn
    · rename_i h
      rw [if_pos h]
      split at hn
      · cases hn
      rename_i m hm
      split at hn
      · rename_i hbody
        obtain rfl := Option.some.inj hn
        have hlt := body_gap hu hg hm hbody
        obtain ⟨hfind, hstop, hadd⟩ := find_add_moved (by decide) (by decide) hg hg' hm
        refine ⟨hstop, ?_⟩
        rw [movedStart_before hlt] at hfind
        have hslice (r : Str) : slice (u ++ r) 1 m = slice u 1 m := by
          unfold slice
          rw [List.take_append_of_le_length hlt.le]
        rw [hfind]
        simp only
        rw [hslice] at hbody ⊢
        rw [movedStart_before hlt] at hadd
        rw [if_pos hbody]
        exact congrArg some hadd
      · cases hn
    rename_i h3
    rw [if_neg h3]
    split at hn
    · rename_i h
      rw [if_pos h]
      exact percent_moved hu hg hg' hn
    · cases hn

theorem movable_placeholder : Movable collectPlaceholderCandidates := movableEnd_placeholder.movable

def urlEnd (remainder : Str) : Option Nat :=
  if "https://".toList.isPrefixOf remainder || "http://".toList.isPrefixOf remainder then
    let url := (remainder.takeWhile isUrlCharacter).rdropWhile isUrlTrailer
    if url.isEmpty then none else some url.length
  else none

theorem urlEnd_eq (source : Str) : collectUrlCandidates source =
    (List.range source.length).filterMap fun start =>
      (urlEnd (source.drop start)).map fun relative => (start, start + relative) := by
  unfold collectUrlCandidates urlEnd
  refine congrArg (fun f => (List.range source.length).filterMap f) (funext fun start => ?_)
  simp only
  split
  · split <;> rfl
  · rfl

theorem movableEnd_url : MovableEnd urlEnd := by
  have hblank : ∀ c, isWhitespace c = true → isUrlCharacter c = false := fun c hc => by
    simp [isUrlCharacter, hc]
  refine ⟨fun {r n} hn => ?_, fun {c r} hc => ?_, fun {u g w y n} hu hg hg' hn => ?_⟩
  · unfold urlEnd at hn
    split at hn
    · simp only at hn
      split at hn
      · cases hn
      · rename_i hne
        obtain rfl := Option.some.inj hn
        exact List.length_pos_of_ne_nil fun h => hne (List.isEmpty_iff.mpr h)
    · cases hn
  · unfold urlEnd
    rw [show "https://".toList = 'h' :: "ttps://".toList from rfl,
      show "http://".toList = 'h' :: "ttp://".toList from rfl, not_start_of_blank hc rfl,
      not_start_of_blank hc rfl]
    rfl
  · have htake {g : Str} (hg : Gap u g y) :
        (u ++ (g ++ y)).takeWhile isUrlCharacter = u.takeWhile isUrlCharacter :=
      takeWhile_gap (fun c hc => hblank c (hg.blank c hc)) (hg.full hu)
    have hend {g : Str} (hg : Gap u g y) : urlEnd (u ++ (g ++ y)) = urlEnd u := by
      unfold urlEnd
      rw [start_gap (by decide) hu hg, start_gap (by decide) hu hg, htake hg]
    rw [hend hg] at hn
    rw [hend hg', hn]
    have hle : n ≤ u.length := by
      unfold urlEnd at hn
      split at hn
      · simp only at hn
        split at hn
        · cases hn
        · obtain rfl := Option.some.inj hn
          exact ((List.rdropWhile_prefix _ _).trans (List.takeWhile_prefix _)).length_le
      · cases hn
    exact ⟨.inl hle, congrArg some (movedStop_before hle).symm⟩

theorem movable_url : Movable collectUrlCandidates := by
  intro x g w y hg hg' span hspan
  rw [urlEnd_eq] at hspan ⊢
  exact movableEnd_url.movable x g w y hg hg' span hspan

/-- The span of an address, from its at sign. -/
def emailAt (source : Str) (at_ : Nat) : Option (Nat × Nat) :=
  if source[at_]? = some '@' then
    let start := at_ - ((source.take at_).rtakeWhile isEmailLocal).length
    let right := (source.drop (at_ + 1)).takeWhile isEmailDomain
    if start < at_ && right.contains '.' then some (start, at_ + 1 + right.length) else none
  else none

theorem emailAt_before (hg : Gap x g y) {i : Nat} (hi : i < x.length) :
    emailAt (x ++ (g ++ y)) i = emailAt x i := by
  have hx : x ≠ [] := List.ne_nil_of_length_pos (by omega)
  have htake : (x.drop (i + 1) ++ (g ++ y)).takeWhile isEmailDomain =
      (x.drop (i + 1)).takeWhile isEmailDomain := by
    refine takeWhile_gap (fun c hc => ?_) (hg.full hx)
    by_contra hd
    have hblank := hg.blank c hc
    rw [blank_of_domain (by simpa using hd)] at hblank
    cases hblank
  unfold emailAt
  rw [List.getElem?_append_left hi, List.take_append_of_le_length hi.le,
    drop_before_gap (show i + 1 ≤ x.length by omega), htake]

/-- An address after the gap is one of `y`. -/
theorem emailAt_after (hg : Gap x g y) (hy : y ≠ []) (k : Nat) :
    emailAt (x ++ (g ++ y)) (x.length + g.length + k) =
      (emailAt y k).map fun span => (x.length + g.length + span.1, x.length + g.length + span.2) := by
  have hfull : g ≠ [] ∨ x = [] := hg.apart.imp_right fun h => h.resolve_right hy
  have htake : (x ++ (g ++ y)).take (x.length + g.length + k) = x ++ (g ++ y.take k) := by
    rw [Nat.add_assoc, List.take_length_add_append, List.take_length_add_append]
  have hleft : (x ++ (g ++ y.take k)).rtakeWhile isEmailLocal = (y.take k).rtakeWhile isEmailLocal := by
    refine rtakeWhile_gap (fun c hc => ?_) hfull
    by_contra hd
    have hblank := hg.blank c hc
    rw [blank_of_local (by simpa using hd)] at hblank
    cases hblank
  have hget : (x ++ (g ++ y))[x.length + g.length + k]? = y[k]? := by
    rw [← List.head?_drop, drop_after_gap, List.head?_drop]
  have hle : ((y.take k).rtakeWhile isEmailLocal).length ≤ k :=
    (List.rtakeWhile_suffix _ _).length_le.trans (List.length_take_le _ _)
  unfold emailAt
  rw [hget, htake, hleft, Nat.add_assoc _ k 1, drop_after_gap]
  split
  · simp only
    have hstart (n : Nat) (hn : n ≤ k) : (decide (x.length + g.length + k - n < x.length + g.length + k)) =
        decide (k - n < k) := decide_eq_decide.mpr (by omega)
    rw [hstart _ hle]
    split
    · refine congrArg some (Prod.ext ?_ ?_)
      · simp only
        omega
      · simp only
        omega
    · rfl
  · rfl

theorem emailAt_length {source : Str} {i : Nat} {span : Nat × Nat} (h : emailAt source i = some span) :
    span.1 < i ∧ i < span.2 ∧ span.2 ≤ source.length := by
  unfold emailAt at h
  split at h
  · rename_i hat
    obtain ⟨hi, -⟩ := List.getElem?_eq_some_iff.mp hat
    simp only at h
    split at h
    · rename_i hc
      obtain rfl := Option.some.inj h
      have hright := (List.takeWhile_prefix isEmailDomain (l := source.drop (i + 1))).length_le
      rw [List.length_drop] at hright
      rw [Bool.and_eq_true, decide_eq_true_eq] at hc
      exact ⟨hc.1, by simp only; omega, by simp only; omega⟩
    · cases h
  · cases h

theorem movable_email : Movable collectEmailCandidates := by
  intro x g w y hg hg' span hspan
  obtain ⟨i, hi, hspan⟩ := List.mem_filterMap.mp hspan
  change emailAt (x ++ (g ++ y)) i = some span at hspan
  have hrange := List.mem_range.mp hi
  simp only [List.length_append] at hrange
  have hmem {j : Nat} {span' : Nat × Nat} (hj : emailAt (x ++ (w ++ y)) j = some span') :
      span' ∈ collectEmailCandidates (x ++ (w ++ y)) := by
    have hlength := emailAt_length hj
    exact List.mem_filterMap.mpr ⟨j, List.mem_range.mpr (by omega), hj⟩
  rcases position_cases x g i with hlt | ⟨k, hk, rfl⟩ | ⟨k, rfl⟩
  · rw [emailAt_before hg hlt] at hspan
    obtain ⟨h1, h2, h3⟩ := emailAt_length hspan
    refine ⟨⟨.inl (by omega), .inl h3⟩, hmem (j := i) ?_⟩
    rw [emailAt_before hg' hlt, hspan, movedSpan, movedStart_before (by omega), movedStop_before h3]
  · obtain ⟨c, hc, r, hr⟩ := drop_in_gap (x := x) (y := y) hk
    unfold emailAt at hspan
    split at hspan
    · rename_i hat
      rw [← List.head?_drop, hr, List.head?_cons, Option.some.injEq] at hat
      have hblank := hg.blank c hc
      rw [hat] at hblank
      cases hblank
    · cases hspan
  · have hy : y ≠ [] := List.ne_nil_of_length_pos (by omega)
    rw [emailAt_after hg hy] at hspan
    obtain ⟨⟨start, stop⟩, hat, rfl⟩ := Option.map_eq_some_iff.mp hspan
    obtain ⟨h1, h2, h3⟩ := emailAt_length hat
    refine ⟨⟨.inr (by simp only; omega), .inr (by simp only; omega)⟩,
      hmem (j := x.length + w.length + k) ?_⟩
    rw [emailAt_after hg' hy, hat, Option.map_some, movedSpan, movedStart_after,
      movedStop_after (by omega)]

theorem movable_automatic : Movable automaticCandidates :=
  (((movable_fenced.append movable_inline).append movable_placeholder).append movable_url).append
    movable_email

/-! ## Protected spans -/

/-- No automatic span begins or ends with a blank. -/
theorem automatic_solid {source : Str} {span : Nat × Nat} (h : span ∈ automaticCandidates source) :
    (∀ c, source[span.1]? = some c → isWhitespace c = false) ∧
      ∀ c, source[span.2 - 1]? = some c → isWhitespace c = false := by
  obtain ⟨⟨hlt, hle⟩, -⟩ := automatic_spec h
  have hbeside {i : Nat} {c : Char} (hc : source[i]? = some c) (hblank : isWhitespace c = true) :
      (span.1 < i ∨ i + 1 ≤ span.1) ∧ (span.2 ≤ i ∨ i + 1 < span.2) := by
    obtain ⟨hi, rfl⟩ := List.getElem?_eq_some_iff.mp hc
    have hsplit : source = source.take i ++ ([source[i]] ++ source.drop (i + 1)) := by
      rw [List.singleton_append, List.cons_getElem_drop_succ, List.take_append_drop]
    have hgap : Gap (source.take i) [source[i]] (source.drop (i + 1)) := by
      refine ⟨fun d hd => ?_, .inl (List.cons_ne_nil _ _)⟩
      rwa [List.mem_singleton.mp hd]
    have hlen : (source.take i).length = i := List.length_take_of_le hi.le
    have hspan : Beside (source.take i) [source[i]] span :=
      (movable_automatic _ _ _ _ hgap hgap span (hsplit ▸ h)).1
    unfold Beside StartsBeside StopsBeside at hspan
    rwa [hlen, List.length_singleton] at hspan
  constructor
  · intro c hc
    by_contra hblank
    have hb := (hbeside hc (by simpa using hblank)).1
    omega
  · intro c hc
    by_contra hblank
    have hb := (hbeside hc (by simpa using hblank)).2
    omega

section

variable [UnicodeTables]

/-- The sources of the spans that the automatic scanners protect. -/
def protectedSources (source : Str) : List Str :=
  (protectSourceText source).spans.map ProtectedSpan.source

def spanPlace (span : Nat × Nat) : Place := ⟨span.1, span.2, automaticPriority⟩

def takenPlaces (source : Str) : List Place := places (chosen (allCandidates source none none none))

omit [UnicodeTables] in
theorem insertTokens_sources (source : Str) (index cursor : Nat) (cs : List ProtectedCandidate) :
    (insertTokens source index cursor cs).2.map ProtectedSpan.source =
      cs.map fun c => slice source c.start c.stop := by
  induction cs generalizing index cursor with
  | nil => rfl
  | cons c cs ih =>
    rw [insertTokens, List.map_cons, List.map_cons, ih]

theorem protectedSources_eq (source : Str) :
    protectedSources source = (takenPlaces source).map fun k => slice source k.start k.stop := by
  unfold takenPlaces places
  rw [List.map_map]
  exact insertTokens_sources source 0 0 _

theorem places_all (source : Str) :
    places (allCandidates source none none none) = (automaticCandidates source).map spanPlace := by
  unfold places allCandidates
  rw [List.append_nil, List.map_map]
  rfl

theorem nonempty_automatic (source : Str) : NonemptyPlaces (allCandidates source none none none) := by
  intro c hc
  unfold allCandidates at hc
  rw [List.append_nil] at hc
  obtain ⟨span, hspan, rfl⟩ := List.mem_map.mp hc
  exact (automatic_spec hspan).1.1

theorem takenPlaces_mem {source : Str} {k : Place} (hk : k ∈ takenPlaces source) :
    ∃ span ∈ automaticCandidates source, spanPlace span = k := by
  have htaken := (mem_places_iff (nonempty_automatic source)).mp hk
  rw [Taken, Prevails, places_all] at htaken
  exact List.mem_map.mp htaken.1

/-! ## Another gap -/

def movedPlace (x g w : Str) (k : Place) : Place :=
  ⟨movedStart x g w k.start, movedStop x g w k.stop, k.priority⟩

/-- The span of a place begins and ends beside the gap. -/
def BesidePlace (x g : Str) (k : Place) : Prop := StartsBeside x g k.start ∧ StopsBeside x g k.stop

omit [UnicodeTables] in
/-- Moved places are in the same order. -/
theorem placeLe_moved {a b : Place} (ha : BesidePlace x g a) (hb : BesidePlace x g b)
    (hlt : a.start < a.stop) (hlt' : b.start < b.stop) (h : placeLe a b = true) :
    placeLe (movedPlace x g w a) (movedPlace x g w b) = true := by
  obtain ⟨ha, ha'⟩ := ha
  obtain ⟨hb, hb'⟩ := hb
  rw [placeLe_iff] at *
  unfold StartsBeside StopsBeside movedPlace movedStart movedStop at *
  simp only at *
  split <;> split <;> split <;> split <;> omega

omit [UnicodeTables] in
theorem stop_le_start_moved {a b : Place} (ha : BesidePlace x g a) (hb : BesidePlace x g b) :
    (movedPlace x g w a).stop ≤ (movedPlace x g w b).start ↔ a.stop ≤ b.start := by
  obtain ⟨-, ha⟩ := ha
  obtain ⟨hb, -⟩ := hb
  unfold StartsBeside StopsBeside movedPlace movedStart movedStop at *
  simp only at *
  split <;> split <;> omega

omit [UnicodeTables] in
theorem moved_moved {k : Place} (hk : BesidePlace x g k) (hlt : k.start < k.stop) :
    movedPlace x w g (movedPlace x g w k) = k := by
  obtain ⟨start, stop, priority⟩ := k
  obtain ⟨hstart, hstop⟩ := hk
  unfold StartsBeside StopsBeside movedPlace movedStart movedStop at *
  simp only [Place.mk.injEq, and_true] at *
  constructor
  · split
    · rfl
    · split <;> omega
  · split
    · rfl
    · split <;> omega

theorem mem_sortedPlaces {source : Str} {k : Place} :
    k ∈ sortedPlaces (allCandidates source none none none) ↔
      ∃ span ∈ automaticCandidates source, spanPlace span = k := by
  unfold sortedPlaces
  rw [List.mem_insertionSort, places_all, List.mem_map]

theorem movable_places (hg : Gap x g y) (hg' : Gap x w y) {k : Place}
    (hk : k ∈ sortedPlaces (allCandidates (x ++ (g ++ y)) none none none)) :
    BesidePlace x g k ∧ k.start < k.stop ∧
      movedPlace x g w k ∈ sortedPlaces (allCandidates (x ++ (w ++ y)) none none none) := by
  obtain ⟨span, hspan, rfl⟩ := mem_sortedPlaces.mp hk
  obtain ⟨hbeside, hmoved⟩ := movable_automatic _ _ _ _ hg hg' span hspan
  exact ⟨hbeside, (automatic_spec hspan).1.1, mem_sortedPlaces.mpr ⟨_, hmoved, rfl⟩⟩

/-- The places that are taken are the same but for the gap. -/
theorem takenPlaces_moved (hg : Gap x g y) (hg' : Gap x w y) :
    takenPlaces (x ++ (w ++ y)) = (takenPlaces (x ++ (g ++ y))).map (movedPlace x g w) := by
  let L := sortedPlaces (allCandidates (x ++ (g ++ y)) none none none)
  have hmoved : ∀ k ∈ L, _ := fun k hk => movable_places hg hg' hk
  have hsorted : (L.map (movedPlace x g w)).Pairwise fun a b => placeLe a b = true := by
    refine List.pairwise_map.mpr ((sorted_places _).imp_of_mem fun ha hb h => ?_)
    exact placeLe_moved (hmoved _ ha).1 (hmoved _ hb).1 (hmoved _ ha).2.1 (hmoved _ hb).2.1 h
  have hmem (k : Place) : k ∈ sortedPlaces (allCandidates (x ++ (w ++ y)) none none none) ↔
      k ∈ L.map (movedPlace x g w) := by
    constructor
    · intro hk
      obtain ⟨hbeside, hlt, hback⟩ := movable_places hg' hg hk
      exact List.mem_map.mpr ⟨_, hback, moved_moved hbeside hlt⟩
    · intro hk
      obtain ⟨k, hk', rfl⟩ := List.mem_map.mp hk
      exact (hmoved k hk').2.2
  have hmono : choose (Place.start ∘ movedPlace x g w) (Place.stop ∘ movedPlace x g w) none L =
      choose Place.start Place.stop none L := by
    refine @choose_monotone _ _ _ _ _ _ none (fun a ha => ?_) fun a ha b hb => ?_
    · have hlt := (hmoved a ha).2.1
      have hlt' := (ranked_places (nonempty_automatic _)).nonempty _ (hmoved a ha).2.2
      exact ⟨fun _ => hlt, fun _ => hlt'⟩
    · have ha : a ∈ L := ha.resolve_left (by simp)
      exact stop_le_start_moved (hmoved a ha).1 (hmoved b hb).1
  unfold takenPlaces
  rw [places_chosen, places_chosen,
    choose_congr (sorted_places _) hsorted (ranked_places (nonempty_automatic _)) hmem, choose_map, hmono]

omit [UnicodeTables] in
theorem slice_before {r : Str} {start stop : Nat} (h : stop ≤ x.length) :
    slice (x ++ r) start stop = slice x start stop := by
  unfold slice
  rw [List.take_append_of_le_length h]

omit [UnicodeTables] in
theorem take_after_gap (j : Nat) :
    (x ++ (g ++ y)).take (x.length + g.length + j) = x ++ (g ++ y.take j) := by
  rw [Nat.add_assoc, List.take_length_add_append, List.take_length_add_append]

omit [UnicodeTables] in
theorem slice_across {start : Nat} (h : start ≤ x.length) (j : Nat) :
    slice (x ++ (g ++ y)) start (x.length + g.length + j) = x.drop start ++ (g ++ y.take j) := by
  unfold slice
  rw [take_after_gap, drop_before_gap h]

omit [UnicodeTables] in
theorem slice_after (i j : Nat) :
    slice (x ++ (g ++ y)) (x.length + g.length + i) (x.length + g.length + j) = slice y i j := by
  unfold slice
  rw [take_after_gap, drop_after_gap]

omit [UnicodeTables] in
/-- A span has the same words with another gap. -/
theorem words_moved (hg : Gap x g y) (hg' : Gap x w y) {k : Place} (hk : BesidePlace x g k)
    (hlt : k.start < k.stop) :
    splitWhitespace (slice (x ++ (w ++ y)) (movedPlace x g w k).start (movedPlace x g w k).stop) =
      splitWhitespace (slice (x ++ (g ++ y)) k.start k.stop) := by
  obtain ⟨start, stop, priority⟩ := k
  obtain ⟨hstart, hstop⟩ := hk
  simp only [movedPlace] at *
  rcases hstop with hstop | hstop
  · rw [movedStart_before (by omega), movedStop_before hstop, slice_before hstop, slice_before hstop]
  obtain ⟨j, rfl⟩ : ∃ j, stop = x.length + g.length + (j + 1) :=
    ⟨stop - (x.length + g.length) - 1, by omega⟩
  rw [movedStop_after (show 0 < j + 1 by omega)]
  rcases hstart with hstart | hstart
  · have hx : x ≠ [] := List.ne_nil_of_length_pos (by omega)
    have hsub {g : Str} (hg : Gap x g y) : Gap (x.drop start) g (y.take (j + 1)) :=
      ⟨hg.blank, (hg.full hx).imp_right fun hy => .inr (by rw [hy, List.take_nil])⟩
    rw [movedStart_before hstart, slice_across hstart.le, slice_across hstart.le,
      words_gap (hsub hg), words_gap (hsub hg')]
  · obtain ⟨i, rfl⟩ := Nat.exists_eq_add_of_le hstart
    rw [movedStart_after, slice_after, slice_after]

/-- The protected spans of sources with the same words have the same words. -/
theorem protectedSources_words {s t : Str} (h : splitWhitespace s = splitWhitespace t) :
    (protectedSources s).map splitWhitespace = (protectedSources t).map splitWhitespace := by
  refine eq_of_words (fun s => (protectedSources s).map splitWhitespace) ?_ h
  intro x g w y hg hg'
  simp only [protectedSources_eq, takenPlaces_moved hg hg', List.map_map]
  refine List.map_congr_left fun k hk => ?_
  have hk' : k ∈ sortedPlaces (allCandidates (x ++ (g ++ y)) none none none) := by
    obtain ⟨span, hspan, rfl⟩ := takenPlaces_mem hk
    exact mem_sortedPlaces.mpr ⟨span, hspan, rfl⟩
  obtain ⟨hbeside, hlt, -⟩ := movable_places hg hg' hk'
  exact (words_moved hg hg' hbeside hlt).symm

omit [UnicodeTables] in
theorem mem_of_mem_slice {s : Str} {start stop : Nat} {c : Char} (h : c ∈ slice s start stop) : c ∈ s :=
  List.mem_of_mem_take (List.mem_of_mem_drop h)

/-- A protected span neither begins nor ends with a blank. -/
theorem protected_ends {source s : Str} (h : s ∈ protectedSources source) :
    s ≠ [] ∧ (∀ c ∈ s.head?, isWhitespace c = false) ∧ ∀ c ∈ s.getLast?, isWhitespace c = false := by
  rw [protectedSources_eq] at h
  obtain ⟨k, hk, rfl⟩ := List.mem_map.mp h
  obtain ⟨span, hspan, rfl⟩ := takenPlaces_mem hk
  obtain ⟨hlt, hle⟩ := (automatic_spec hspan).1
  obtain ⟨hfirst, hlast⟩ := automatic_solid hspan
  have hlength : (slice source span.1 span.2).length = span.2 - span.1 := by
    unfold slice
    rw [List.length_drop, List.length_take_of_le hle]
  refine ⟨List.ne_nil_of_length_pos ?_, fun c hc => hfirst c ?_, fun c hc => hlast c ?_⟩
  · show 0 < (slice source span.1 span.2).length
    omega
  · rw [← hc]
    unfold spanPlace slice
    rw [List.head?_drop, List.getElem?_take_of_lt hlt]
  · rw [← hc]
    show _ = (slice source span.1 span.2).getLast?
    rw [List.getLast?_eq_getElem?, hlength]
    unfold slice
    rw [List.getElem?_drop, List.getElem?_take_of_lt (by omega)]
    congr 1
    omega

omit [UnicodeTables] in
/-- A text of one word with nothing around it is the word. -/
theorem eq_of_one_word {s word : Str} (h : splitWhitespace s = [word])
    (hhead : ∀ c ∈ s.head?, isWhitespace c = false)
    (hlast : ∀ c ∈ s.getLast?, isWhitespace c = false) : s = word := by
  obtain ⟨before, after, hfirst⟩ := firstWord_of_words h
  have hbefore : before = [] := by
    cases before with
    | nil => rfl
    | cons c before =>
      have hc := hhead c (by rw [hfirst.text]; rfl)
      rw [hfirst.blank c List.mem_cons_self] at hc
      cases hc
  have hafter : after = [] := by
    by_contra hne
    have hc := hlast (after.getLast hne) (by
      rw [hfirst.text, ← List.append_assoc, List.getLast?_append_of_ne_nil _ hne,
        List.getLast?_eq_some_getLast hne]
      rfl)
    rw [blank_of_no_words hfirst.words _ (List.getLast_mem hne)] at hc
    cases hc
  rw [hfirst.text, hbefore, hafter, List.nil_append, List.append_nil]

/-- Where no protected span has a blank in it, another source of the same words has the same spans. -/
theorem protectedSources_solid {s t : Str} (h : splitWhitespace t = splitWhitespace s)
    (hsolid : ∀ p ∈ protectedSources s, Solid p) : protectedSources t = protectedSources s := by
  have hwords := protectedSources_words h
  have hs : (protectedSources s).map splitWhitespace = (protectedSources s).map ([·]) :=
    List.map_congr_left fun p hp => words_solid (hsolid p hp) (protected_ends hp).1
  have ht : (protectedSources t).map splitWhitespace = (protectedSources t).map ([·]) := by
    refine List.map_congr_left fun q hq => ?_
    obtain ⟨-, hhead, hlast⟩ := protected_ends hq
    have hmem : splitWhitespace q ∈ (protectedSources s).map ([·]) := by
      rw [← hs, ← hwords]
      exact List.mem_map_of_mem hq
    obtain ⟨p, -, hp⟩ := List.mem_map.mp hmem
    obtain rfl : q = p := eq_of_one_word hp.symm hhead hlast
    exact hp.symm
  rw [hs, ht] at hwords
  have hinj : Function.Injective (([·]) : Str → List Str) := fun _ _ h => (List.cons.inj h).1
  exact hinj.list_map hwords

/-! ## Another blank -/

/-- Every blank is `b`. -/
def recolored (b : Char) (s : Str) : Str := s.map fun c => if isWhitespace c then b else c

omit [UnicodeTables] in
theorem words_recolored {b : Char} (hb : isWhitespace b = true) (s : Str) :
    splitWhitespace (recolored b s) = splitWhitespace s := by
  have hkept (c : Char) : isWhitespace (if isWhitespace c then b else c) = isWhitespace c := by
    split
    · rename_i hc
      rw [hb, hc]
    · rfl
  induction s with
  | nil => rfl
  | cons c s ih =>
    have hhead : (recolored b s).head?.all isWhitespace = s.head?.all isWhitespace := by
      cases s with
      | nil => rfl
      | cons d s => exact hkept d
    unfold recolored at ih hhead ⊢
    rw [List.map_cons, splitWhitespace, splitWhitespace, hkept, hhead, ih]
    split <;> rfl

omit [UnicodeTables] in
theorem blank_recolored {b c : Char} {s : Str} (hc : c ∈ recolored b s) (hblank : isWhitespace c = true) :
    c = b := by
  obtain ⟨d, -, rfl⟩ := List.mem_map.mp hc
  split
  · rfl
  · rename_i hd
    rw [if_neg hd] at hblank
    exact absurd hblank hd

/-- All sources with the words of one have its protected spans if and only if none of these spans has
a blank in it. -/
theorem protectedSources_fixed_iff (s : Str) :
    (∀ t, splitWhitespace t = splitWhitespace s → protectedSources t = protectedSources s) ↔
      ∀ p ∈ protectedSources s, Solid p := by
  refine ⟨fun h p hp c hc => ?_, fun hsolid t ht => protectedSources_solid ht hsolid⟩
  by_contra hblank
  have hcolor {b : Char} (hb : isWhitespace b = true) : c = b := by
    have hp' : p ∈ protectedSources (recolored b s) := by
      rw [h _ (words_recolored hb s)]
      exact hp
    rw [protectedSources_eq] at hp'
    obtain ⟨k, -, rfl⟩ := List.mem_map.mp hp'
    exact blank_recolored (mem_of_mem_slice hc) (by simpa using hblank)
  have hspace := hcolor (b := ' ') rfl
  rw [hcolor (b := '\t') rfl] at hspace
  exact absurd hspace (by decide)

end

end LinguaMesh
