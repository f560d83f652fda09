import LinguaMesh.Domain.Respaced
import LinguaMesh.Storage.Memory

/-!
# Hits of the translation memory

A row of the memory is returned for every request with the words of its source and the
same other fields. The protected spans of a source depend on its blanks too, where a
span has one in it: a fence, or two words of inline code. The translation of such a
source is then returned for a source with other code.
-/

namespace LinguaMesh.Storage

open Runs Transaction

section Hits

variable [JsonText]

/-- The memory after an operation, with the statements of it that fail. -/
def MemoryTables.step (t : MemoryTables) :
    MemoryOp × List (Option TranslationError) → Option MemoryTables
  | (op, faults) => some (op.perform t faults).2.1

/-- The memory after any history of operations. -/
abbrev MemoryTables.Reached (t : MemoryTables) : Prop :=
  Reach MemoryTables.step (fun _ _ => True) .empty t

/-- A recording of the request writes the row. -/
def RecordedFor (request : MemoryRequest) (row : MemoryRow) : Prop :=
  ∃ translatedText now, (MemoryOp.record request translatedText now).Writes row

theorem RecordedFor.cacheKey {request : MemoryRequest} {row : MemoryRow} (h : RecordedFor request row) :
    translationMemoryKey request = .ok row.cacheKey := by
  obtain ⟨translatedText, now, key, hkey, -, -, rfl⟩ := h
  exact hkey

/-- Each row of the memory was recorded for some request. -/
theorem MemoryTables.Reached.recorded {t : MemoryTables} (h : t.Reached) :
    ∀ row ∈ t.memory, ∃ request, RecordedFor request row := by
  refine h.invariant (I := fun t => ∀ row ∈ t.memory, ∃ request, RecordedFor request row)
    (fun _ hrow => absurd hrow List.not_mem_nil) ?_
  rintro t ⟨op, faults⟩ t' ht - hstep row hrow
  obtain rfl := Option.some.inj hstep
  rcases (memory_step op t faults).rows row hrow with hrow | hwrites
  · exact ht row hrow
  · cases op with
    | record request translatedText now => exact ⟨request, translatedText, now, hwrites⟩
    | _ => exact hwrites.elim

/-- A hit is a row with the key of the request. -/
theorem lookup_hit (request : MemoryRequest) (t : MemoryTables) :
    Ensures (lookupTranslationMemory request) t fun r t' =>
      t' = t ∧ ∀ row, r = .ok (some row) →
        row ∈ t.memory ∧ translationMemoryKey request = .ok row.cacheKey := by
  unfold lookupTranslationMemory
  split
  · exact ensures_pure ⟨rfl, fun _ h => by cases h⟩
  refine ensures_bind (ensures_query (fun _ => ⟨rfl, fun _ h => by cases h⟩) ?_)
  simp only [Then]
  split
  · exact ensures_pure ⟨rfl, fun _ h => by cases h⟩
  split
  · exact ensures_giveUp ⟨rfl, fun _ h => by cases h⟩
  · rename_i key hkey
    refine ensures_query (fun _ => ⟨rfl, fun _ h => by cases h⟩) ⟨rfl, fun row hrow => ?_⟩
    have hfind := Except.ok.inj hrow
    have hcache := List.find?_some hfind
    exact ⟨List.mem_of_find?_eq_some hfind, hkey.trans (congrArg Except.ok (eq_of_beq hcache).symm)⟩

/-- A recording in an empty memory is found by every request with its key. -/
theorem hit_after_record {r r' : MemoryRequest} {key : Str} (hkey : translationMemoryKey r = .ok key)
    (hkey' : translationMemoryKey r' = .ok key) (hprivate : r.isIncognito = false)
    (hprivate' : r'.isIncognito = false)
    (hsize : utf8Len r.sourceText ≤ maxTranslationMemoryTextBytes) :
    ∃ t row, MemoryTables.Reached t ∧ RecordedFor r row ∧
      (lookupTranslationMemory r' t []).1 = .ok (some row) := by
  let row := memoryRow r [] key key 0
  have hrecord : (recordTranslationMemory r [] 0 .empty []).2.1 = ⟨[row], true⟩ := by
    have hsmall : ¬(maxTranslationMemoryTextBytes < utf8Len r.sourceText ∨
        maxTranslationMemoryTextBytes < utf8Len []) := by
      rintro (h | h)
      · omega
      · exact absurd h (by decide)
    unfold recordTranslationMemory
    rw [hprivate, hkey, if_neg Bool.false_ne_true, if_neg hsmall,
      show translationMemoryIdentityJson r = .ok key from hkey]
    rfl
  have hlookup : (lookupTranslationMemory r' ⟨[row], true⟩ []).1 = .ok (some row) := by
    have hfind : [row].find? (·.cacheKey == key) = some row :=
      List.find?_cons_of_pos (beq_self_eq_true key)
    unfold lookupTranslationMemory
    rw [hprivate', hkey', if_neg Bool.false_ne_true]
    exact congrArg Except.ok hfind
  refine ⟨⟨[row], true⟩, row, ?_, ⟨[], 0, key, hkey, hprivate, hsize, rfl⟩, hlookup⟩
  exact Reach.refl.next (a := (.record r [] 0, [])) trivial (congrArg some hrecord)

/-! ## Protected spans of a hit -/

variable [UnicodeTables] [JsonText.Lawful]

/-- In every state that is reached, what is recorded for a request is returned only for sources with
its protected spans, if and only if it is never recorded or none of its protected spans has a blank
in it. -/
theorem hits_protected_iff (r : MemoryRequest) :
    (∀ t, MemoryTables.Reached t → ∀ r', Ensures (lookupTranslationMemory r') t fun hit _ =>
      ∀ row, hit = .ok (some row) → RecordedFor r row →
        protectedSources r.sourceText = protectedSources r'.sourceText) ↔
      r.isIncognito = true ∨ maxTranslationMemoryTextBytes < utf8Len r.sourceText ∨
        ∀ p ∈ protectedSources r.sourceText, Solid p := by
  constructor
  · intro h
    by_cases hprivate : r.isIncognito = true
    · exact .inl hprivate
    rw [Bool.not_eq_true] at hprivate
    by_cases hsize : maxTranslationMemoryTextBytes < utf8Len r.sourceText
    · exact .inr (.inl hsize)
    refine .inr (.inr ((protectedSources_fixed_iff _).mp fun s hs => ?_))
    -- the same request with another source of these words
    let r' : MemoryRequest := { r with sourceText := s }
    have hsame : translationMemoryKey r = translationMemoryKey r' :=
      (same_key_iff r r').mpr ⟨congrArg joinWords hs.symm, rfl, rfl, rfl, rfl, rfl, rfl, rfl, rfl⟩
    obtain ⟨key, hkey⟩ := JsonText.Lawful.total (memoryIdentity r)
    have hkey : translationMemoryKey r = .ok key := by
      unfold translationMemoryKey translationMemoryIdentityJson
      rw [hkey, Except.ok_mapError]
    have hkey' : translationMemoryKey r' = .ok key := hsame ▸ hkey
    obtain ⟨t, row, ht, hrow, hhit⟩ :=
      hit_after_record hkey hkey' hprivate hprivate (not_lt.mp hsize)
    exact (h t ht r' [] row hhit hrow).symm
  · intro h t ht r' faults row hhit hrow
    obtain ⟨-, hlookup⟩ := lookup_hit r' t faults
    have hsame := hrow.cacheKey.trans (hlookup row hhit).2.symm
    have hwords := words_of_joined ((same_key_iff r r').mp hsame).1
    obtain ⟨_, _, key, -, hprivate, hsize, -⟩ := hrow
    rcases h with h | h | h
    · rw [h] at hprivate
      cases hprivate
    · omega
    · exact (protectedSources_solid hwords.symm h).symm

end Hits

/-- Inline code of one word. -/
theorem hits_protected_make :
    (∀ p ∈ @protectedSources asciiTables "Run `make`.".toList, Solid p) ∧
      ∀ t, @MemoryTables.Reached plainJson t → ∀ r',
        Ensures (@lookupTranslationMemory plainJson r') t fun hit _ =>
          ∀ row, hit = .ok (some row) → @RecordedFor plainJson (helloRequest "Run `make`.") row →
            @protectedSources asciiTables "Run `make`.".toList =
              @protectedSources asciiTables r'.sourceText := by
  have hsolid : ∀ p ∈ @protectedSources asciiTables "Run `make`.".toList, Solid p := by decide +kernel
  exact ⟨hsolid, (@hits_protected_iff plainJson asciiTables lawful_plainJson
    (helloRequest "Run `make`.")).mpr (.inr (.inr hsolid))⟩

/-- The row of code with one space is returned for code with two. -/
theorem hit_of_other_code :
    ∃ t row, @MemoryTables.Reached plainJson t ∧
      @RecordedFor plainJson (helloRequest "Set `a b`.") row ∧
      (@lookupTranslationMemory plainJson (helloRequest "Set `a  b`.") t []).1 = .ok (some row) ∧
      @protectedSources asciiTables "Set `a b`.".toList = ["`a b`".toList] ∧
      @protectedSources asciiTables "Set `a  b`.".toList = ["`a  b`".toList] := by
  obtain ⟨t, row, ht, hrow, hhit⟩ := @hit_after_record plainJson (helloRequest "Set `a b`.")
    (helloRequest "Set `a  b`.") _ rfl rfl rfl rfl (by decide)
  exact ⟨t, row, ht, hrow, hhit, by decide +kernel, by decide +kernel⟩

end LinguaMesh.Storage
