import LinguaMesh.Domain.Restore

/-!
# Restoring a stream

`restore_iff`: pushing the deltas and finishing gives `out` exactly when the
text has an accepted reading with every marker once, whose markers replaced
give `out`. `pushLoop_iff` is the step, for one push and whatever follows it.
-/

namespace LinguaMesh

open Search

/-! ## The leading marker -/

theorem minByPosition_none {l : List (Nat × Nat)} (h : minByPosition l = none) : l = [] := by
  cases l with
  | nil => rfl
  | cons x xs =>
    simp only [minByPosition] at h
    split at h
    · cases h
    · split at h <;> cases h

theorem minByPosition_some {l : List (Nat × Nat)} {x : Nat × Nat} (h : minByPosition l = some x) :
    x ∈ l ∧ ∀ y ∈ l, x.1 ≤ y.1 := by
  induction l generalizing x with
  | nil => cases h
  | cons y ys ih =>
    simp only [minByPosition] at h
    split at h
    · rename_i hn
      cases h
      have hys := minByPosition_none hn
      subst hys
      simp
    · rename_i z hz
      obtain ⟨hmem, hle⟩ := ih hz
      split at h
      · rename_i hyz
        cases h
        refine ⟨List.mem_cons_self .., fun w hw => ?_⟩
        rcases List.mem_cons.mp hw with rfl | hw
        · exact Nat.le_refl _
        · exact hyz.trans (hle w hw)
      · rename_i hyz
        cases h
        refine ⟨List.mem_cons_of_mem _ hmem, fun w hw => ?_⟩
        rcases List.mem_cons.mp hw with rfl | hw
        · omega
        · exact hle w hw

section

variable {spans : List ProtectedSpan}

theorem mem_positions {pending : Str} {p i : Nat} :
    (p, i) ∈ (spans.zipIdx.filterMap fun (span, index) =>
      (find span.token pending).map fun position => (position, index)) ↔
    i < spans.length ∧ find (tokenAt spans i) pending = some p := by
  simp only [List.mem_filterMap, Prod.exists, List.mem_zipIdx_iff_getElem?, Option.map_eq_some_iff,
    Prod.mk.injEq]
  constructor
  · rintro ⟨span, j, hj, q, hq, rfl, rfl⟩
    exact ⟨(List.getElem?_eq_some_iff.mp hj).1, by rw [tokenAt_eq hj]; exact hq⟩
  · rintro ⟨hi, hf⟩
    have hi := List.getElem?_eq_getElem hi
    exact ⟨spans[i], i, hi, p, by rw [tokenAt_eq hi] at hf; exact hf, rfl, rfl⟩

theorem nextMarker_none {pending : Str} (h : nextMarker pending spans = none) :
    NoToken spans pending := by
  intro j hj X Y e
  have hl := minByPosition_none h
  cases hf : find (tokenAt spans j) pending with
  | none => exact find_eq_none.mp hf X Y (by rw [e, List.append_assoc])
  | some p =>
    have := mem_positions.mpr ⟨hj, hf⟩
    rw [hl] at this
    cases this

theorem nextMarker_some {pending : Str} {p i : Nat} (h : nextMarker pending spans = some (p, i)) :
    i < spans.length ∧ ∃ A B, pending = A ++ (tokenAt spans i ++ B) ∧ A.length = p ∧
      FirstAt spans (A ++ tokenAt spans i) A.length := by
  obtain ⟨hmem, hmin⟩ := minByPosition_some h
  obtain ⟨hi, hf⟩ := mem_positions.mp hmem
  obtain ⟨⟨A, B, e, rfl⟩, -⟩ := find_eq_some hf
  refine ⟨hi, A, B, by rw [e, List.append_assoc], rfl, fun j hj X Y eX => ?_⟩
  cases hg : find (tokenAt spans j) pending with
  | none =>
    refine absurd ?_ (find_eq_none.mp hg X (Y ++ B))
    rw [e, eX]
    simp only [List.append_assoc]
  | some q =>
    have hq := hmin (q, j) (mem_positions.mpr ⟨hj, hg⟩)
    refine hq.trans ((find_eq_some hg).2 X (Y ++ B) ?_)
    rw [e, eX]
    simp only [List.append_assoc]

end

/-! ## Markers still to come -/

theorem completes_lt {seen : List Bool} {r : Reading} (h : r.Completes seen) {i : Nat}
    (hi : i ∈ r.indices) : i < seen.length :=
  (List.getElem?_eq_some_iff.mp ((h.2 i).mp hi)).1

theorem completes_part {seen : List Bool} {A : Str} {i : Nat} {rest : Reading} :
    (Reading.part A i rest).Completes seen ↔
      seen[i]? = some false ∧ rest.Completes (seen.set i true) := by
  have set : ∀ j, (seen.set i true)[j]? = some false ↔ i ≠ j ∧ seen[j]? = some false := by
    intro j
    rw [List.getElem?_set]
    by_cases hij : i = j
    · subst hij
      by_cases hl : i < seen.length <;> simp [hl]
    · simp [hij]
  unfold Reading.Completes
  simp only [Reading.indices, List.nodup_cons, List.mem_cons, set]
  constructor
  · rintro ⟨⟨hni, hnd⟩, hiff⟩
    refine ⟨(hiff i).mp (.inl rfl), hnd, fun j => ⟨fun hj => ?_, fun hj => ?_⟩⟩
    · exact ⟨fun hij => hni (hij ▸ hj), (hiff j).mp (.inr hj)⟩
    · exact ((hiff j).mpr hj.2).resolve_left (Ne.symm hj.1)
  · rintro ⟨hi, hnd, hiff⟩
    refine ⟨⟨fun hmem => ((hiff i).mp hmem).1 rfl, hnd⟩, fun j => ⟨?_, fun hj => ?_⟩⟩
    · rintro (rfl | hj)
      · exact hi
      · exact ((hiff j).mp hj).2
    · by_cases hij : i = j
      · exact .inl hij.symm
      · exact .inr ((hiff j).mpr ⟨hij, hj⟩)

theorem completes_prepend {seen : List Bool} {A : Str} {r : Reading} :
    (r.prepend A).Completes seen ↔ r.Completes seen := by
  unfold Reading.Completes
  rw [Reading.indices_prepend]

theorem completes_last {seen : List Bool} {plain : Str} :
    (Reading.last plain).Completes seen ↔ seen.any (!·) = false := by
  simp only [Reading.Completes, Reading.indices, List.nodup_nil, List.not_mem_nil, false_iff,
    true_and, List.any_eq_false, Bool.not_eq_true', Bool.not_eq_false]
  constructor
  · intro h b hb
    obtain ⟨i, hi, rfl⟩ := List.mem_iff_getElem.mp hb
    have := h i
    rw [List.getElem?_eq_getElem hi] at this
    simpa using this
  · intro h i hi
    have := h false (List.mem_of_getElem? hi)
    cases this

theorem count_set {seen : List Bool} {i : Nat} (h : seen[i]? = some false) :
    (seen.set i true).count false + 1 = seen.count false := by
  obtain ⟨hi, hf⟩ := List.getElem?_eq_some_iff.mp h
  rw [List.count_set hi, hf]
  have : 0 < seen.count false := List.count_pos_iff.mpr (List.mem_of_getElem? h)
  simp
  omega

/-! ## One push -/

theorem appendPlainText_ok {output plain out : Str} : appendPlainText output plain = .ok out ↔
    contains plain protectedTokenPrefix = false ∧ out = output ++ plain := by
  unfold appendPlainText
  split <;> rename_i h
  · simp [h]
  · simp only [Except.ok.injEq]
    exact ⟨fun e => ⟨by simpa using h, e.symm⟩, fun e => e.2.symm⟩

section

variable {spans : List ProtectedSpan} {cuts : List Str} {Z₀ : Str}

/-- `run` gives what the accepted readings of `text` give, those with the markers not `seen`. -/
def Restores (spans : List ProtectedSpan) (cuts : List Str) (text : Str) (seen : List Bool)
    (run : Except ProtectedTextError Str) : Prop :=
  ∀ out, run = .ok out ↔ ∃ r : Reading, r.text spans = text ∧ r.Completes seen ∧
    r.Accepted spans cuts ∧ out = r.restored spans

/-- What a push returns, then what comes after it. -/
def pushThen (cont : Str → List Bool → Except ProtectedTextError Str)
    (pushed : Except ProtectedTextError (Str × Str × List Bool)) :
    Except ProtectedTextError Str := do
  let (output, pending, seen) ← pushed
  let rest ← cont pending seen
  .ok (output ++ rest)

theorem pushThen_ok {cont : Str → List Bool → Except ProtectedTextError Str} {output pending : Str}
    {seen : List Bool} {out : Str} : pushThen cont (.ok (output, pending, seen)) = .ok out ↔
      ∃ rest, cont pending seen = .ok rest ∧ out = output ++ rest := by
  show ((cont pending seen).bind fun rest => .ok (output ++ rest)) = .ok out ↔ _
  cases cont pending seen with
  | error e => simp [Except.bind]
  | ok rest => simp [Except.bind, eq_comm]

/-- No marker is left: the rest is returned up to the held-back suffix. -/
theorem pushLoop_rest (hm : Marked spans) (hn : 0 < spans.length)
    (hcuts : ∀ S ∈ cuts, S.length ≤ Z₀.length)
    {cont : Str → List Bool → Except ProtectedTextError Str}
    (hc : ∀ H seen, seen.length = spans.length → NoToken spans H →
      Restores spans cuts (H ++ Z₀) seen (cont H seen))
    {fuel : Nat} {P : Str} {seen : List Bool} (hs : seen.length = spans.length)
    (hnm : nextMarker P spans = none) (output out : Str) :
    pushThen cont (pushLoop spans fuel P seen output) = .ok out ↔
      ∃ r : Reading, r.text spans = P ++ Z₀ ∧ r.Completes seen ∧ r.Accepted spans (Z₀ :: cuts) ∧
        out = output ++ r.restored spans := by
  have hP := nextMarker_none hnm
  have hH := held P spans
  have hl : pushLoop spans fuel P seen output =
      (appendPlainText output (P.take (P.length - longestMarkerPrefixSuffix P spans))).bind
        fun output =>
          .ok (output, P.drop (P.length - longestMarkerPrefixSuffix P spans), seen) := by
    unfold pushLoop
    rw [hnm]
    rfl
  rw [hl]
  generalize P.length - longestMarkerPrefixSuffix P spans = split at hH ⊢
  obtain ⟨A, H, hA, hHd, rfl⟩ : ∃ A H, P.take split = A ∧ P.drop split = H ∧ P = A ++ H :=
    ⟨_, _, rfl, rfl, (List.take_append_drop ..).symm⟩
  rw [hHd] at hH
  rw [hA, hHd]
  have hHt : NoToken spans H := fun j hj X Y e => hP j hj (A ++ X) Y (by rw [e]; simp)
  have lt : ∀ {r : Reading}, r.Completes seen → ∀ k ∈ r.indices, k < spans.length :=
    fun hr k hk => hs ▸ completes_lt hr hk
  constructor
  · intro h
    cases ha : appendPlainText output A with
    | error e => rw [ha] at h; cases h
    | ok o =>
      obtain ⟨hclean, rfl⟩ := appendPlainText_ok.mp ha
      rw [ha] at h
      obtain ⟨rest, hrest, rfl⟩ := pushThen_ok.mp h
      obtain ⟨r, hr, hcomp, hacc, rfl⟩ := (hc H seen hs hHt rest).mp hrest
      refine ⟨r.prepend A, by simp [hr], completes_prepend.mpr hcomp, ?_, by simp⟩
      refine (accepted_held hm hn hP hH hcuts ?_ (by simp [hr])).mpr ⟨r, rfl, hclean, hr, hacc⟩
      exact lt (completes_prepend.mpr hcomp)
  · rintro ⟨r, hr, hcomp, hacc, rfl⟩
    obtain ⟨r', rfl, hclean, hr', hacc'⟩ :=
      (accepted_held hm hn hP hH hcuts (lt hcomp) hr).mp hacc
    rw [appendPlainText_ok.mpr ⟨hclean, rfl⟩]
    refine pushThen_ok.mpr ⟨r'.restored spans, ?_, by simp⟩
    exact (hc H seen hs hHt _).mpr ⟨r', hr', completes_prepend.mp hcomp, hacc', rfl⟩

/-- A reading of a text with a leading marker begins with it. -/
theorem reading_marker (hm : Marked spans) (hcuts : ∀ S ∈ cuts, S.length ≤ Z₀.length)
    {P A B : Str} {i : Nat} (hi : i < spans.length) (hP : P = A ++ (tokenAt spans i ++ B))
    (hfirst : FirstAt spans (A ++ tokenAt spans i) A.length) {seen : List Bool}
    (hs : seen.length = spans.length) {r : Reading} (hr : r.text spans = P ++ Z₀)
    (hcomp : r.Completes seen) : r.Accepted spans (Z₀ :: cuts) ↔ ∃ rest, r = .part A i rest ∧
      contains A protectedTokenPrefix = false ∧ rest.text spans = B ++ Z₀ ∧
      rest.Accepted spans (Z₀ :: cuts) := by
  refine accepted_marker hm hi hfirst (fun S hS => ?_) (fun k hk => hs ▸ completes_lt hcomp hk) ?_
  · rw [List.length_append]
    rcases List.mem_cons.mp hS with rfl | hS
    · omega
    · have := hcuts S hS
      omega
  · rw [hr, hP]
    simp only [List.append_assoc]

/-- A push and what follows it: every round cuts off the first piece of the reading. -/
theorem pushLoop_iff (hm : Marked spans) (hn : 0 < spans.length)
    (hcuts : ∀ S ∈ cuts, S.length ≤ Z₀.length)
    {cont : Str → List Bool → Except ProtectedTextError Str}
    (hc : ∀ H seen, seen.length = spans.length → NoToken spans H →
      Restores spans cuts (H ++ Z₀) seen (cont H seen))
    {fuel : Nat} {P : Str} {seen : List Bool} (hf : seen.count false ≤ fuel)
    (hs : seen.length = spans.length) (output out : Str) :
    pushThen cont (pushLoop spans fuel P seen output) = .ok out ↔
      ∃ r : Reading, r.text spans = P ++ Z₀ ∧ r.Completes seen ∧ r.Accepted spans (Z₀ :: cuts) ∧
        out = output ++ r.restored spans := by
  induction fuel generalizing P seen output with
  | zero =>
    cases hnm : nextMarker P spans with
    | none => exact pushLoop_rest hm hn hcuts hc hs hnm output out
    | some x =>
      obtain ⟨p, i⟩ := x
      obtain ⟨hi, A, B, hP, hA, hfirst⟩ := nextMarker_some hnm
      have hl : pushLoop spans 0 P seen output = .error .duplicateMarker := by
        unfold pushLoop
        simp only [hnm, ite_self]
      rw [hl]
      constructor
      · intro h
        cases h
      rintro ⟨r, hr, hcomp, hacc, -⟩
      obtain ⟨rest, rfl, -⟩ := (reading_marker hm hcuts hi hP hfirst hs hr hcomp).mp hacc
      have := count_set (completes_part.mp hcomp).1
      omega
  | succ fuel ih =>
    cases hnm : nextMarker P spans with
    | none => exact pushLoop_rest hm hn hcuts hc hs hnm output out
    | some x =>
      obtain ⟨p, i⟩ := x
      obtain ⟨hi, A, B, hP, hA, hfirst⟩ := nextMarker_some hnm
      have hspan := List.getElem?_eq_getElem hi
      by_cases hseen : seen[i]? = some false
      · have hl : pushLoop spans (fuel + 1) P seen output =
            (appendPlainText output A).bind fun output =>
              pushLoop spans fuel B (seen.set i true) (output ++ replacementAt spans i) := by
          rw [pushLoop, hnm]
          simp only [hseen, hspan, Option.getD_some, Bool.false_eq_true, ↓reduceIte]
          have htake : P.take p = A := by rw [hP, ← hA, List.take_left]
          have hdrop : P.drop (p + spans[i].token.length) = B := by
            rw [hP, ← tokenAt_eq hspan, ← hA, ← List.append_assoc, ← List.length_append,
              List.drop_left]
          have hrep : spans[i].replacement = replacementAt spans i := by
            simp [replacementAt, hspan]
          rw [htake, hdrop, hrep]
          rfl
        rw [hl]
        have hcount := count_set hseen
        constructor
        · intro h
          cases ha : appendPlainText output A with
          | error e => rw [ha] at h; cases h
          | ok o =>
            obtain ⟨hclean, rfl⟩ := appendPlainText_ok.mp ha
            rw [ha] at h
            obtain ⟨rest, hr, hcomp, hacc, rfl⟩ := (ih (by omega) (by simpa using hs) _).mp h
            have hr' : (Reading.part A i rest).text spans = P ++ Z₀ := by
              rw [Reading.text, hr, hP]
              simp only [List.append_assoc]
            have hcomp' : (Reading.part A i rest).Completes seen :=
              completes_part.mpr ⟨hseen, hcomp⟩
            refine ⟨.part A i rest, hr', hcomp', ?_, ?_⟩
            · exact (reading_marker hm hcuts hi hP hfirst hs hr' hcomp').mpr
                ⟨rest, rfl, hclean, hr, hacc⟩
            · simp only [Reading.restored, List.append_assoc]
        · rintro ⟨r, hr, hcomp, hacc, rfl⟩
          obtain ⟨rest, rfl, hclean, hr', hacc'⟩ :=
            (reading_marker hm hcuts hi hP hfirst hs hr hcomp).mp hacc
          rw [appendPlainText_ok.mpr ⟨hclean, rfl⟩]
          refine (ih (by omega) (by simpa using hs) _).mpr
            ⟨rest, hr', (completes_part.mp hcomp).2, hacc', ?_⟩
          simp only [Reading.restored, List.append_assoc]
      · have htrue : seen[i]?.getD false = true := by
          have hi' : i < seen.length := hs ▸ hi
          rw [List.getElem?_eq_getElem hi'] at hseen ⊢
          simpa using hseen
        have hl : pushLoop spans (fuel + 1) P seen output = .error .duplicateMarker := by
          rw [pushLoop, hnm]
          simp only [htrue, ↓reduceIte]
        rw [hl]
        constructor
        · intro h
          cases h
        rintro ⟨r, hr, hcomp, hacc, -⟩
        obtain ⟨rest, rfl, -⟩ := (reading_marker hm hcuts hi hP hfirst hs hr hcomp).mp hacc
        exact absurd (completes_part.mp hcomp).1 hseen

/-! ## All deltas -/

theorem boundaries_le (deltas : List Str) :
    ∀ S ∈ boundaries deltas, S.length ≤ deltas.flatten.length := by
  induction deltas with
  | nil =>
    intro S hS
    rw [List.mem_singleton.mp hS]
    exact Nat.le_refl _
  | cons delta deltas ih =>
    intro S hS
    rw [List.flatten_cons, List.length_append]
    rcases List.mem_cons.mp hS with rfl | hS
    · omega
    · have := ih S hS
      omega

/-- The end of `finish`, after its empty push. -/
def finishPending (pending : Str) (seen : List Bool) : Except ProtectedTextError Str :=
  if contains pending protectedTokenPrefix then .error .invalidMarker
  else if seen.any (!·) then .error .missingMarker else .ok pending

theorem finishPending_restores {H : Str} {seen : List Bool} (hs : seen.length = spans.length)
    (hH : NoToken spans H) : Restores spans [] H seen (finishPending H seen) := by
  intro out
  unfold finishPending
  constructor
  · intro h
    split at h
    · cases h
    · rename_i hclean
      split at h
      · cases h
      · rename_i hseen
        cases h
        exact ⟨.last H, rfl, completes_last.mpr (by simpa using hseen),
          ⟨hiddenIn_of_clean (by simpa using hclean), trivial⟩, rfl⟩
  · rintro ⟨r, hr, hcomp, hacc, rfl⟩
    cases r with
    | part plain i rest =>
      have hi : i < spans.length := hs ▸ completes_lt hcomp (by simp [Reading.indices])
      exact absurd hr.symm (hH i hi plain _)
    | last plain =>
      rw [Reading.text] at hr
      subst hr
      have hclean : contains plain protectedTokenPrefix = false := by
        rw [contains_eq_false]
        intro A B e
        obtain ⟨-, S, -, hS, -⟩ := hacc.1 A B e
        cases hS
      rw [hclean, completes_last.mp hcomp]
      rfl

theorem restore_nil (hn : 0 < spans.length) (pending : Str) (seen : List Bool) :
    ProtectedTextRestorer.restore ⟨spans, pending, seen⟩ [] =
      pushThen finishPending (pushLoop spans spans.length pending seen []) := by
  have he : spans.isEmpty = false := by
    cases spans with
    | nil => cases hn
    | cons => rfl
  unfold ProtectedTextRestorer.restore ProtectedTextRestorer.finish ProtectedTextRestorer.push
    pushThen finishPending
  simp only [List.append_nil, he, Bool.false_eq_true, ↓reduceIte]
  cases pushLoop spans spans.length pending seen [] with
  | error e => rfl
  | ok x =>
    obtain ⟨o, H, s⟩ := x
    cases H with
    | nil =>
      simp only [bind, Except.bind, List.isEmpty_nil, ↓reduceIte,
        show contains [] protectedTokenPrefix = false by decide, Bool.false_eq_true]
      cases s.any (!·) <;> simp
    | cons c H =>
      simp only [bind, Except.bind, List.isEmpty_cons, Bool.false_eq_true, ↓reduceIte,
        appendPlainText]
      cases contains (c :: H) protectedTokenPrefix <;> cases s.any (!·) <;> rfl

theorem restore_cons (hn : 0 < spans.length) (pending : Str) (seen : List Bool) (delta : Str)
    (deltas : List Str) :
    ProtectedTextRestorer.restore ⟨spans, pending, seen⟩ (delta :: deltas) =
      pushThen (fun pending seen => ProtectedTextRestorer.restore ⟨spans, pending, seen⟩ deltas)
        (pushLoop spans spans.length (pending ++ delta) seen []) := by
  have he : spans.isEmpty = false := by
    cases spans with
    | nil => cases hn
    | cons => rfl
  rw [ProtectedTextRestorer.restore]
  unfold ProtectedTextRestorer.push pushThen
  simp only [he, Bool.false_eq_true, ↓reduceIte]
  cases pushLoop spans spans.length (pending ++ delta) seen [] with
  | error e => rfl
  | ok x => rfl

/-- The restorer accepts a stream when its text has an accepted reading. -/
theorem restore_iff (hm : Marked spans) (hn : 0 < spans.length) {seen : List Bool}
    (hs : seen.length = spans.length) (pending : Str) (deltas : List Str) :
    Restores spans (boundaries deltas) (pending ++ deltas.flatten) seen
      (ProtectedTextRestorer.restore ⟨spans, pending, seen⟩ deltas) := by
  have hf : ∀ {s : List Bool}, s.length = spans.length → s.count false ≤ spans.length :=
    fun h => h ▸ List.count_le_length ..
  induction deltas generalizing pending seen with
  | nil =>
    intro out
    rw [restore_nil hn, boundaries]
    have hcuts : ∀ S ∈ ([] : List Str), S.length ≤ ([] : Str).length := by simp
    refine (pushLoop_iff hm hn hcuts ?_ (hf hs) hs [] out).trans (by simp)
    intro H s hs' hH
    rw [List.append_nil]
    exact finishPending_restores hs' hH
  | cons delta deltas ih =>
    intro out
    rw [restore_cons hn, boundaries, List.flatten_cons, ← List.append_assoc]
    refine (pushLoop_iff hm hn (boundaries_le deltas) ?_ (hf hs) hs [] out).trans (by simp)
    exact fun H s hs' _ => ih hs' H

end

theorem restore_no_spans (pending : Str) (seen : List Bool) (deltas : List Str)
    (hs : seen.any (!·) = false) :
    ProtectedTextRestorer.restore ⟨[], pending, seen⟩ deltas = .ok (pending ++ deltas.flatten) := by
  induction deltas generalizing pending with
  | nil =>
    simp [ProtectedTextRestorer.restore, ProtectedTextRestorer.finish, ProtectedTextRestorer.push,
      hs, bind, Except.bind]
  | cons delta deltas ih =>
    simp [ProtectedTextRestorer.restore, ProtectedTextRestorer.push, ih, bind, Except.bind]

end LinguaMesh
