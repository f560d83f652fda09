import LinguaMesh.Document.Xml

/-!
# A plain XML reader

A reader of the kind of `quick_xml`'s that fits on a page: text with references,
comments, CDATA sections, processing instructions and tags, whose names have to
match. It reads character by character and takes no document type declaration.
Elements may be left open at the end, as they may for `quick_xml`. It knows the
references that escaping writes, and has the laws (`lawful_plainXml`): what is inserted into
markup behind a `>` that does not end it makes no difference (`run_alike`).
-/

namespace LinguaMesh.PlainXml

inductive Mode where
  | text
  | reference
  /-- `raw` is what was read since the `<`. -/
  | markup (raw : Str) (quote : Option Char)
  deriving DecidableEq, Repr

structure State where
  opened : List Str
  mode : Mode
  deriving DecidableEq, Repr

def isComment (raw : Str) : Bool := "!--".toList.isPrefixOf raw

def isCData (raw : Str) : Bool := "![CDATA[".toList.isPrefixOf raw

def isInstruction (raw : Str) : Bool := "?".toList.isPrefixOf raw

/-- Whether a `>` ends the markup. -/
def ended (raw : Str) (quote : Option Char) : Bool :=
  if isComment raw then "--".toList.isSuffixOf (raw.drop 3)
  else if isCData raw then "]]".toList.isSuffixOf (raw.drop 8)
  else if isInstruction raw then "?".toList.isSuffixOf (raw.drop 1)
  else quote.isNone

def nameOf (s : Str) : Str := s.takeWhile fun c => !(isWhitespace c || c == '/' || c == '>')

/-- The open elements after the markup. -/
def close (opened : List Str) (raw : Str) : Option (List Str) :=
  if isComment raw || isCData raw || isInstruction raw then some opened
  else if raw.head? = some '!' then none
  else if raw.head? = some '/' then
    if opened.head? = some (nameOf raw.tail) then some opened.tail else none
  else if raw.getLast? = some '/' then some opened
  else some (nameOf raw :: opened)

/-- The quote that is open after a character. -/
def nextQuote (quote : Option Char) (c : Char) : Option Char :=
  match quote with
  | some q => if c = q then none else some q
  | none => if c = '"' ∨ c = '\x27' then some c else none

def step (s : State) (c : Char) : Option State :=
  match s.mode with
  | .text =>
    if c = '<' then some ⟨s.opened, .markup [] none⟩
    else if c = '&' then some ⟨s.opened, .reference⟩
    else some s
  | .reference =>
    if c = ';' then some ⟨s.opened, .text⟩ else if c = '<' ∨ c = '&' then none else some s
  | .markup raw quote =>
    if c = '>' ∧ ended raw quote = true then (close s.opened raw).map fun opened => ⟨opened, .text⟩
    else some ⟨s.opened, .markup (raw ++ [c]) (nextQuote quote c)⟩

def run (s : State) (xml : Str) : Option State := xml.foldlM step s

def reads (xml : Str) : Bool :=
  match run ⟨[], .text⟩ xml with
  | some s => s.mode == .text
  | none => false

def escapeChar (c : Char) : Str :=
  if c = '<' then "&lt;".toList
  else if c = '>' then "&gt;".toList
  else if c = '&' then "&amp;".toList
  else if c = '\x27' then "&apos;".toList
  else if c = '"' then "&quot;".toList
  else [c]

def escape (t : Str) : Str := t.flatMap escapeChar

def references : List (Str × Char) :=
  [("lt;".toList, '<'), ("gt;".toList, '>'), ("amp;".toList, '&'), ("apos;".toList, '\x27'),
    ("quot;".toList, '"')]

/-- `skip` characters still belong to a reference. -/
def unescapeFrom : Nat → Str → Option Str
  | _, [] => some []
  | skip + 1, _ :: cs => unescapeFrom skip cs
  | 0, c :: cs =>
    if c = '&' then
      (references.find? fun r => r.1.isPrefixOf cs).bind fun r =>
        (unescapeFrom r.1.length cs).map (r.2 :: ·)
    else (unescapeFrom 0 cs).map (c :: ·)

@[reducible] def plainXml : QuickXml := ⟨reads, escape, unescapeFrom 0⟩

/-! ## Reading -/

theorem run_append (s : State) (a b : Str) : run s (a ++ b) = (run s a).bind (run · b) :=
  List.foldlM_append

theorem reads_eq_true {xml : Str} :
    reads xml = true ↔ ∃ opened, run ⟨[], .text⟩ xml = some ⟨opened, .text⟩ := by
  unfold reads
  split
  · rename_i s hs
    rw [hs, beq_iff_eq]
    constructor
    · rintro hmode
      exact ⟨s.opened, by rw [← hmode]⟩
    · rintro ⟨opened, h⟩
      rw [Option.some.inj h]
  · rename_i hs
    simp [hs]

/-- Text without markup leaves the open elements alone. -/
theorem run_text {s s' : State} {t : Str} (hmode : s.mode = .text ∨ s.mode = .reference)
    (ht : '<' ∉ t) (h : run s t = some s') :
    s'.opened = s.opened ∧ (s'.mode = .text ∨ s'.mode = .reference) := by
  induction t generalizing s with
  | nil =>
    cases h
    exact ⟨rfl, hmode⟩
  | cons c t ih =>
    obtain ⟨s1, hs1, hrest⟩ := Option.bind_eq_some_iff.mp (show (step s c).bind (run · t) = some s' from h)
    have hc : c ≠ '<' := fun e => ht (e ▸ List.mem_cons_self)
    have hstep : s1.opened = s.opened ∧ (s1.mode = .text ∨ s1.mode = .reference) := by
      unfold step at hs1
      rcases hmode with hm | hm
      · rw [hm] at hs1
        simp only [hc, if_false] at hs1
        split at hs1
        · cases hs1
          exact ⟨rfl, .inr rfl⟩
        · cases hs1
          exact ⟨rfl, .inl hm⟩
      · rw [hm] at hs1
        simp only at hs1
        split at hs1
        · cases hs1
          exact ⟨rfl, .inl rfl⟩
        split at hs1
        · cases hs1
        · cases hs1
          exact ⟨rfl, .inr hm⟩
    obtain ⟨hopened, hend⟩ := ih hstep.2 (fun hm => ht (List.mem_cons_of_mem c hm)) hrest
    exact ⟨hopened.trans hstep.1, hend⟩

theorem run_escapeChar (opened : List Str) (c : Char) :
    run ⟨opened, .text⟩ (escapeChar c) = some ⟨opened, .text⟩ := by
  unfold escapeChar
  split
  · rfl
  split
  · rfl
  split
  · rfl
  split
  · rfl
  split
  · rfl
  · rename_i h1 _ h3 _ _
    simp [run, step, h1, h3]

theorem run_escape (opened : List Str) (t : Str) :
    run ⟨opened, .text⟩ (escape t) = some ⟨opened, .text⟩ := by
  induction t with
  | nil => rfl
  | cons c t ih =>
    rw [escape, List.flatMap_cons, run_append, run_escapeChar]
    exact ih

/-- Where markup begins, or the text is over, no reference is open. -/
theorem text_of_markup {s : State} {b : Str} {opened : List Str} (hb : AtMarkup b)
    (hmode : s.mode = .text ∨ s.mode = .reference) (h : run s b = some ⟨opened, .text⟩) :
    s.mode = .text := by
  rcases hmode with hm | hm
  · exact hm
  rcases hb with rfl | hb
  · cases h
    rfl
  · obtain ⟨cs, rfl⟩ : ∃ cs, b = '<' :: cs := by
      cases b with
      | nil => cases hb
      | cons c cs => exact ⟨cs, by rw [Option.some.inj hb]⟩
    have hstep : step s '<' = none := by
      unfold step
      rw [hm]
      rfl
    have : (step s '<').bind (run · cs) = some ⟨opened, .text⟩ := h
    rw [hstep] at this
    cases this

theorem reads_escape {a c b t : Str} (ha : reads a = true) (hc : '<' ∉ c) (hb : AtMarkup b)
    (h : reads (a ++ c ++ b) = true) : reads (a ++ escape t ++ b) = true := by
  obtain ⟨before, hbefore⟩ := reads_eq_true.mp ha
  obtain ⟨after, hafter⟩ := reads_eq_true.mp h
  rw [List.append_assoc, run_append, hbefore, Option.bind_some, run_append] at hafter
  obtain ⟨s, hs, hrest⟩ := Option.bind_eq_some_iff.mp hafter
  obtain ⟨hopened, hmode⟩ := run_text (.inl rfl) hc hs
  obtain rfl : s = ⟨before, .text⟩ := by
    have htext := text_of_markup hb hmode hrest
    obtain ⟨o, m⟩ := s
    rw [show o = before from hopened, show m = .text from htext]
  refine reads_eq_true.mpr ⟨after, ?_⟩
  rw [List.append_assoc, run_append, hbefore, Option.bind_some, run_append, run_escape]
  exact hrest

/-! ## Reading within markup -/

theorem prefix_within {p r y : Str} (hp : '>' ∉ p) (hr : '>' ∈ r) :
    p.isPrefixOf (r ++ y) = p.isPrefixOf r := by
  rw [Bool.eq_iff_iff, List.isPrefixOf_iff_prefix, List.isPrefixOf_iff_prefix]
  constructor
  · intro h
    refine List.prefix_of_prefix_length_le h (List.prefix_append r y) ?_
    by_contra hlt
    exact hp ((List.prefix_of_prefix_length_le (List.prefix_append r y) h (by omega)).subset hr)
  · exact fun h => h.trans (List.prefix_append r y)

theorem suffix_past {p x : Str} (hp : '<' ∉ p) (front : Str) :
    p.isSuffixOf (front ++ '<' :: x) = p.isSuffixOf x := by
  rw [Bool.eq_iff_iff, List.isSuffixOf_iff_suffix, List.isSuffixOf_iff_suffix]
  constructor
  · intro h
    refine List.suffix_of_suffix_length_le h ((List.suffix_cons '<' x).trans (List.suffix_append front _)) ?_
    by_contra hlt
    refine hp ((List.suffix_of_suffix_length_le (List.suffix_append front ('<' :: x)) h ?_).subset
      List.mem_cons_self)
    rw [List.length_cons]
    omega
  · exact fun h => h.trans ((List.suffix_cons '<' x).trans (List.suffix_append front _))

theorem nameOf_within {r : Str} (hr : '>' ∈ r) (y : Str) : nameOf (r ++ y) = nameOf r := by
  obtain ⟨front, back, rfl⟩ := List.append_of_mem hr
  unfold nameOf
  induction front with
  | nil => rfl
  | cons c front ih =>
    simp only [List.cons_append, List.takeWhile_cons]
    split
    · rw [ih (by simp)]
    · rfl

section Inserted

variable {r x : Str} (hr : '>' ∈ r) (u v : Str)

include hr

/-- What is inserted behind a `>` of the markup is not looked at. -/
theorem ended_inserted (quote : Option Char) :
    ended (r ++ u ++ '<' :: x) quote = ended (r ++ v ++ '<' :: x) quote := by
  have hsuffix (p : Str) (hp : '<' ∉ p) {n : Nat} (hn : n ≤ r.length) (y : Str) :
      p.isSuffixOf ((r ++ y ++ '<' :: x).drop n) = p.isSuffixOf x := by
    rw [List.append_assoc, List.drop_append_of_le_length hn, ← List.append_assoc]
    exact suffix_past hp _
  have hlong (p : Str) (h : p.isPrefixOf r = true) : p.length ≤ r.length :=
    (List.isPrefixOf_iff_prefix.mp h).length_le
  unfold ended isComment isCData isInstruction
  simp only [List.append_assoc, prefix_within (show '>' ∉ "!--".toList by decide) hr,
    prefix_within (show '>' ∉ "![CDATA[".toList by decide) hr,
    prefix_within (show '>' ∉ "?".toList by decide) hr]
  simp only [← List.append_assoc]
  split
  · rename_i h
    have hn : 3 ≤ r.length := hlong _ h
    rw [hsuffix "--".toList (by decide) hn, hsuffix "--".toList (by decide) hn]
  split
  · rename_i h
    have hn : 8 ≤ r.length := hlong _ h
    rw [hsuffix "]]".toList (by decide) hn, hsuffix "]]".toList (by decide) hn]
  split
  · rename_i h
    have hn : 1 ≤ r.length := hlong _ h
    rw [hsuffix "?".toList (by decide) hn, hsuffix "?".toList (by decide) hn]
  · rfl

theorem close_inserted (opened : List Str) :
    close opened (r ++ u ++ '<' :: x) = close opened (r ++ v ++ '<' :: x) := by
  have hlast (y : Str) : (r ++ y ++ '<' :: x).getLast? = ('<' :: x).getLast? :=
    List.getLast?_append_of_ne_nil _ (List.cons_ne_nil _ _)
  obtain ⟨c, r', rfl⟩ : ∃ c r', r = c :: r' := List.exists_cons_of_ne_nil (List.ne_nil_of_mem hr)
  have hname (y : Str) : nameOf (c :: r' ++ y ++ '<' :: x) = nameOf (c :: r') := by
    rw [List.append_assoc, nameOf_within hr]
  unfold close isComment isCData isInstruction
  simp only [List.append_assoc, prefix_within (show '>' ∉ "!--".toList by decide) hr,
    prefix_within (show '>' ∉ "![CDATA[".toList by decide) hr,
    prefix_within (show '>' ∉ "?".toList by decide) hr]
  simp only [← List.append_assoc, hlast, hname]
  split
  · rfl
  by_cases hslash : c = '/'
  · have hr' : '>' ∈ r' := by simpa [hslash] using hr
    have htail (y : Str) : nameOf (c :: r' ++ y ++ '<' :: x).tail = nameOf r' := by
      rw [List.append_assoc]
      exact nameOf_within hr' _
    rw [htail, htail]
    rfl
  · have hhead (y : Str) : (c :: r' ++ y ++ '<' :: x).head? ≠ some '/' := fun h => hslash (Option.some.inj h)
    rw [if_neg (hhead u), if_neg (hhead v)]
    rfl

end Inserted

/-- Two states of the reader that differ in what was inserted into the markup behind `r`. -/
inductive Alike (r u v : Str) : State → State → Prop where
  | same (s : State) : Alike r u v s s
  | markup (opened : List Str) (x : Str) (quote : Option Char) :
    Alike r u v ⟨opened, .markup (r ++ u ++ '<' :: x) quote⟩
      ⟨opened, .markup (r ++ v ++ '<' :: x) quote⟩

theorem step_alike {r u v : Str} (hr : '>' ∈ r) {s s' s1 : State} (h : Alike r u v s s') {c : Char}
    (hstep : step s c = some s1) : ∃ s1', step s' c = some s1' ∧ Alike r u v s1 s1' := by
  cases h with
  | same => exact ⟨s1, hstep, .same s1⟩
  | markup opened x quote =>
    unfold step at hstep ⊢
    dsimp only at hstep ⊢
    rw [← ended_inserted hr u v, ← close_inserted hr u v]
    split at hstep
    · rename_i hends
      rw [if_pos hends]
      exact ⟨s1, hstep, .same s1⟩
    · rename_i hgoes
      rw [if_neg hgoes]
      cases hstep
      refine ⟨_, rfl, ?_⟩
      simp only [List.append_assoc, List.cons_append]
      have := Alike.markup (r := r) (u := u) (v := v) opened (x ++ [c]) (nextQuote quote c)
      simpa only [List.append_assoc] using this

theorem run_alike {r u v : Str} (hr : '>' ∈ r) {s s' s1 : State} (h : Alike r u v s s') {b : Str}
    (hrun : run s b = some s1) : ∃ s1', run s' b = some s1' ∧ Alike r u v s1 s1' := by
  induction b generalizing s s' with
  | nil =>
    cases hrun
    exact ⟨s', rfl, h⟩
  | cons c b ih =>
    obtain ⟨s2, hstep, hrest⟩ := Option.bind_eq_some_iff.mp (show (step s c).bind (run · b) = some s1 from hrun)
    obtain ⟨s2', hstep', h2⟩ := step_alike hr h hstep
    obtain ⟨s1', hrest', h1⟩ := ih h2 hrest
    refine ⟨s1', ?_, h1⟩
    show (step s' c).bind (run · b) = some s1'
    rw [hstep', Option.bind_some, hrest']

/-- Neither `>` nor a quote. -/
def Inert (t : Str) : Prop := ∀ c ∈ t, c ≠ '>' ∧ c ≠ '"' ∧ c ≠ '\x27'

theorem run_inert {t : Str} (ht : Inert t) (opened : List Str) {quote : Option Char}
    (hquote : ∀ q, quote = some q → q = '"' ∨ q = '\x27') (raw : Str) :
    run ⟨opened, .markup raw quote⟩ t = some ⟨opened, .markup (raw ++ t) quote⟩ := by
  induction t generalizing raw with
  | nil =>
    rw [List.append_nil]
    rfl
  | cons c t ih =>
    obtain ⟨h1, h2, h3⟩ := ht c List.mem_cons_self
    have hnext : nextQuote quote c = quote := by
      cases quote with
      | none => simp [nextQuote, h2, h3]
      | some q =>
        have hne : c ≠ q := by
          rcases hquote q rfl with rfl | rfl
          · exact h2
          · exact h3
        simp [nextQuote, hne]
    have hstep : step ⟨opened, .markup raw quote⟩ c = some ⟨opened, .markup (raw ++ [c]) quote⟩ := by
      unfold step
      dsimp only
      rw [if_neg (fun h => h1 h.1), hnext]
    show (step ⟨opened, .markup raw quote⟩ c).bind (run · t) = _
    rw [hstep, Option.bind_some, ih (fun d hd => ht d (List.mem_cons_of_mem _ hd)), List.append_assoc]
    rfl

/-! ## Escaping -/

theorem unescapeFrom_skip (s u : Str) : unescapeFrom s.length (s ++ u) = unescapeFrom 0 u := by
  induction s with
  | nil => rfl
  | cons c s ih => exact ih

theorem unescapeFrom_reference {name rest : Str} {c : Char}
    (h : references.find? (fun r => r.1.isPrefixOf (name ++ rest)) = some (name, c)) :
    unescapeFrom 0 ('&' :: (name ++ rest)) = (unescapeFrom 0 rest).map (c :: ·) := by
  rw [unescapeFrom, if_pos rfl, h, Option.bind_some, unescapeFrom_skip]

theorem unescapeFrom_escapeChar (c : Char) (rest : Str) :
    unescapeFrom 0 (escapeChar c ++ rest) = (unescapeFrom 0 rest).map (c :: ·) := by
  have hlt := @unescapeFrom_reference "lt;".toList rest '<'
    (by simp [references, List.isPrefixOf])
  have hgt := @unescapeFrom_reference "gt;".toList rest '>'
    (by simp [references, List.isPrefixOf])
  have hamp := @unescapeFrom_reference "amp;".toList rest '&'
    (by simp [references, List.isPrefixOf])
  have hapos := @unescapeFrom_reference "apos;".toList rest '\x27'
    (by simp [references, List.isPrefixOf])
  have hquot := @unescapeFrom_reference "quot;".toList rest '"'
    (by simp [references, List.isPrefixOf])
  unfold escapeChar
  by_cases h1 : c = '<'
  · rw [if_pos h1, h1]
    exact hlt
  by_cases h2 : c = '>'
  · rw [if_neg h1, if_pos h2, h2]
    exact hgt
  by_cases h3 : c = '&'
  · rw [if_neg h1, if_neg h2, if_pos h3, h3]
    exact hamp
  by_cases h4 : c = '\x27'
  · rw [if_neg h1, if_neg h2, if_neg h3, if_pos h4, h4]
    exact hapos
  by_cases h5 : c = '"'
  · rw [if_neg h1, if_neg h2, if_neg h3, if_neg h4, if_pos h5, h5]
    exact hquot
  · rw [if_neg h1, if_neg h2, if_neg h3, if_neg h4, if_neg h5, List.singleton_append, unescapeFrom,
      if_neg h3]

theorem unescape_escape (t : Str) : unescapeFrom 0 (escape t) = some t := by
  induction t with
  | nil => rfl
  | cons c t ih =>
    unfold escape at ih ⊢
    rw [List.flatMap_cons, unescapeFrom_escapeChar, ih]
    rfl

theorem escapeChar_plain {c d : Char} (hd : d = '<' ∨ d = '\x00') (h : d ∈ escapeChar c) :
    d = c ∧ d ≠ '<' := by
  have hnot (s : Str) (hs : s.all (fun e => e != '<' && e != '\x00') = true) : d ∉ s := by
    intro hm
    have := List.all_eq_true.mp hs d hm
    rcases hd with rfl | rfl <;> exact absurd this (by decide)
  unfold escapeChar at h
  split at h
  · exact absurd h (hnot _ (by decide))
  split at h
  · exact absurd h (hnot _ (by decide))
  split at h
  · exact absurd h (hnot _ (by decide))
  split at h
  · exact absurd h (hnot _ (by decide))
  split at h
  · exact absurd h (hnot _ (by decide))
  · rename_i h1 _ _ _ _
    rw [List.mem_singleton.mp h]
    exact ⟨rfl, h1⟩

theorem plain_escape {t : Str} (hnul : '\x00' ∉ t) : '<' ∉ escape t ∧ '\x00' ∉ escape t := by
  constructor
  · intro h
    obtain ⟨c, -, hc⟩ := List.mem_flatMap.mp h
    exact (escapeChar_plain (.inl rfl) hc).2 rfl
  · intro h
    obtain ⟨c, ht, hc⟩ := List.mem_flatMap.mp h
    exact hnul ((escapeChar_plain (.inr rfl) hc).1 ▸ ht)

theorem escape_word {t : Str} (h : IsWord t) : escape t = t := by
  have hplain : ∀ c ∈ t, escapeChar c = [c] := by
    intro c hc
    have hletter := h.2 c hc
    have hne (d : Char) (hd : d.isAlphanum = false) : c ≠ d := by
      rintro rfl
      rw [hd] at hletter
      cases hletter
    unfold escapeChar
    rw [if_neg (hne _ rfl), if_neg (hne _ rfl), if_neg (hne _ rfl), if_neg (hne _ rfl), if_neg (hne _ rfl)]
  rw [escape, List.flatMap_congr hplain, List.flatMap_singleton']

theorem inert_escape (t : Str) : Inert (escape t) := by
  intro c hc
  obtain ⟨d, -, hd⟩ := List.mem_flatMap.mp hc
  have hnot (s : Str) (hs : s.all (fun e => e != '>' && e != '"' && e != '\x27') = true) (hm : c ∈ s) :
      c ≠ '>' ∧ c ≠ '"' ∧ c ≠ '\x27' := by
    have := List.all_eq_true.mp hs c hm
    simpa [and_assoc] using this
  unfold escapeChar at hd
  split at hd
  · exact hnot _ (by decide) hd
  split at hd
  · exact hnot _ (by decide) hd
  split at hd
  · exact hnot _ (by decide) hd
  split at hd
  · exact hnot _ (by decide) hd
  split at hd
  · exact hnot _ (by decide) hd
  · rename_i _ h2 _ h4 h5
    rw [List.mem_singleton.mp hd]
    exact ⟨h2, h5, h4⟩

/-- The quote of a state of the reader. -/
def Quoted (s : State) : Prop :=
  ∀ raw quote, s.mode = .markup raw quote → ∀ q, quote = some q → q = '"' ∨ q = '\x27'

theorem quoted_step {s s' : State} {c : Char} (h : Quoted s) (hstep : step s c = some s') : Quoted s' := by
  intro raw quote hmode q hq
  subst hq
  unfold step at hstep
  split at hstep
  · split at hstep
    · cases hstep
      cases hmode
    split at hstep
    · cases hstep
      cases hmode
    · cases hstep
      rename_i htext _ _
      rw [htext] at hmode
      cases hmode
  · split at hstep
    · cases hstep
      cases hmode
    split at hstep
    · cases hstep
    · cases hstep
      rename_i href _ _
      rw [href] at hmode
      cases hmode
  · rename_i raw0 quote0 hmarkup
    split at hstep
    · obtain ⟨opened, -, rfl⟩ := Option.map_eq_some_iff.mp hstep
      cases hmode
    · cases hstep
      obtain ⟨-, hnext⟩ := Mode.markup.inj hmode
      unfold nextQuote at hnext
      split at hnext
      · rename_i q0
        split at hnext
        · cases hnext
        · exact h raw0 _ hmarkup q hnext
      · split at hnext
        · rename_i hc
          exact Option.some.inj hnext ▸ hc
        · cases hnext

theorem quoted_run {s s' : State} {a : Str} (h : Quoted s) (hrun : run s a = some s') : Quoted s' := by
  induction a generalizing s with
  | nil => exact Option.some.inj hrun ▸ h
  | cons c a ih =>
    obtain ⟨s1, hstep, hrest⟩ := Option.bind_eq_some_iff.mp (show (step s c).bind (run · a) = some s' from hrun)
    exact ih (quoted_step h hstep) hrest

/-- Markup that a `>` does not end has it. -/
theorem mem_markup {a raw : Str} {s : State} {opened : List Str} {quote : Option Char}
    (ha : a.getLast? = some '>') (hrun : run s a = some ⟨opened, .markup raw quote⟩) : '>' ∈ raw := by
  obtain ⟨front, rfl⟩ := List.getLast?_eq_some_iff.mp ha
  rw [run_append] at hrun
  obtain ⟨s1, -, hlast⟩ := Option.bind_eq_some_iff.mp hrun
  have hstep : step s1 '>' = some ⟨opened, .markup raw quote⟩ := by
    obtain ⟨s2, h2, h3⟩ := Option.bind_eq_some_iff.mp (show (step s1 '>').bind (run · []) = _ from hlast)
    rw [h2]
    exact h3
  unfold step at hstep
  split at hstep
  · rename_i hmode
    rw [if_neg (by decide), if_neg (by decide)] at hstep
    cases hstep
    cases hmode
  · rename_i hmode
    rw [if_neg (by decide), if_neg (by decide)] at hstep
    cases hstep
    cases hmode
  · split at hstep
    · obtain ⟨opened', -, h⟩ := Option.map_eq_some_iff.mp hstep
      cases h
    · cases hstep
      exact List.mem_append_right _ List.mem_cons_self

theorem isWord_x : IsWord ['x'] := ⟨List.cons_ne_nil _ _, by simp⟩

/-- Behind a `>` and before a `<` an escaped text is read where a word is. -/
theorem reads_escaped {a b t : Str} (ha : AfterMarkup a) (hb : AtMarkup b)
    (h : reads (a ++ ['x'] ++ b) = true) : reads (a ++ escape t ++ b) = true := by
  obtain ⟨after, hafter⟩ := reads_eq_true.mp h
  rw [List.append_assoc, run_append] at hafter
  obtain ⟨s, hs, hafter⟩ := Option.bind_eq_some_iff.mp hafter
  rw [run_append] at hafter
  obtain ⟨s1, hx, hrest⟩ := Option.bind_eq_some_iff.mp hafter
  obtain ⟨opened, mode⟩ := s
  cases mode with
  | text =>
    cases hx
    refine reads_eq_true.mpr ⟨after, ?_⟩
    rw [List.append_assoc, run_append, hs, Option.bind_some, run_append, run_escape]
    exact hrest
  | reference =>
    cases hx
    cases text_of_markup hb (.inr rfl) hrest
  | markup raw quote =>
    have hraw : '>' ∈ raw := by
      rcases ha with rfl | ha
      · cases hs
      · exact mem_markup ha hs
    have hquote : ∀ q, quote = some q → q = '"' ∨ q = '\x27' :=
      quoted_run (fun _ _ h => by cases h) hs raw quote rfl
    have hinert : Inert ['x'] := by simp [Inert]
    rw [run_inert hinert opened hquote] at hx
    cases hx
    rcases hb with rfl | hb
    · cases hrest
    obtain ⟨b, rfl⟩ : ∃ b', b = '<' :: b' := by
      cases b with
      | nil => cases hb
      | cons c b => exact ⟨b, by rw [Option.some.inj hb]⟩
    -- the `<` belongs to the markup
    have hstep (u : Str) : step ⟨opened, .markup (raw ++ u) quote⟩ '<' =
        some ⟨opened, .markup (raw ++ u ++ '<' :: []) (nextQuote quote '<')⟩ := rfl
    have hrest' : (step ⟨opened, .markup (raw ++ ['x']) quote⟩ '<').bind (run · b) =
        some ⟨after, .text⟩ := hrest
    rw [hstep, Option.bind_some] at hrest'
    obtain ⟨s', hrun, hsame⟩ := run_alike hraw (Alike.markup (v := escape t) opened [] _) hrest'
    cases hsame with
    | same =>
      refine reads_eq_true.mpr ⟨after, ?_⟩
      rw [List.append_assoc, run_append, hs, Option.bind_some, run_append, run_inert (inert_escape t) opened hquote]
      show (step ⟨opened, .markup (raw ++ escape t) quote⟩ '<').bind (run · b) = _
      rw [hstep, Option.bind_some]
      exact hrun

theorem lawful_plainXml : @QuickXml.Lawful plainXml :=
  @QuickXml.Lawful.mk plainXml (fun t _ => unescape_escape t) (fun _ => plain_escape)
    (fun _ => escape_word) (fun _ _ _ ha hb _ h => reads_escaped ha hb (h _ isWord_x))
    fun _ _ _ _ ha hc hb _ h => reads_escape ha hc hb h

end LinguaMesh.PlainXml
