import LinguaMesh.Lib.Scan

/-!
# The loop of a scanner

A scanner goes over a text with a cursor. Each turn cuts a piece off the text
from the cursor on and adds to its result what it has to say of the piece
(`emit`, given the cursor and the length of the piece). `cutAll` is the loop. If
each cut takes something (`Advances`), the loop returns, and its results are
those of the scans of the text (`cutAll_iff`).
-/

namespace LinguaMesh

open Run

universe u

variable {ε σ α β γ : Type u}

structure Cutting (σ γ : Type u) where
  cursor : Nat
  state : σ
  out : List γ

section Loop

variable (cut : σ → List α → Run ε (Piece σ β)) (emit : Nat → Nat → β → List γ) (text : List α)

def cutTurn (s : Cutting σ γ) : Run ε (Turn (Cutting σ γ) (σ × List γ)) :=
  if text.length ≤ s.cursor then .ok (.done (s.state, s.out))
  else do
    let p ← cut s.state (text.drop s.cursor)
    .ok (.next ⟨s.cursor + p.length, p.state, s.out ++ emit s.cursor p.length p.label⟩)

def cutAll (s : σ) : Run ε (σ × List γ) := loop (cutTurn cut emit text) (text.length + 1) ⟨0, s, []⟩

/-- What a scan adds to the result, from `cursor` on. -/
def emitted (emit : Nat → Nat → β → List γ) : Nat → List (List α × β) → List γ
  | _, [] => []
  | cursor, (piece, label) :: ps =>
    emit cursor piece.length label ++ emitted emit (cursor + piece.length) ps

/-- Each cut takes something, and no more than there is. -/
def Advances : Prop :=
  ∀ s tail, tail ≠ [] → Post (cut s tail) fun p => 0 < p.length ∧ p.length ≤ tail.length

end Loop

variable {cut : σ → List α → Run ε (Piece σ β)} {emit : Nat → Nat → β → List γ} {text : List α}

theorem returns_cutAll (hcut : Advances cut) (s : σ) : Returns (cutAll cut emit text s) := by
  refine Post.loop (fun s => s.cursor ≤ text.length) (fun s => text.length - s.cursor)
    (fun s hs => ?_) (Nat.zero_le _) (Nat.lt_succ_of_le (Nat.sub_le _ _))
  unfold cutTurn
  split
  · trivial
  · rename_i hlt
    have hne : text.drop s.cursor ≠ [] := fun e => hlt (List.drop_eq_nil_iff.mp e)
    refine (hcut s.state _ hne).bind fun p hp => ?_
    rw [List.length_drop] at hp
    simp only [post_ok, Turn.good_next]
    omega

/-- What a turn can do. -/
theorem cutTurn_cases (hcut : Advances cut) {s : Cutting σ γ}
    {t : Turn (Cutting σ γ) (σ × List γ)} (h : cutTurn cut emit text s = .ok t) :
    (text.drop s.cursor = [] ∧ t = .done (s.state, s.out)) ∨
    ∃ piece rest label s', text.drop s.cursor = piece ++ rest ∧ piece ≠ [] ∧
      cut s.state (piece ++ rest) = .ok ⟨piece.length, label, s'⟩ ∧
      text.drop (s.cursor + piece.length) = rest ∧
      t = .next ⟨s.cursor + piece.length, s', s.out ++ emit s.cursor piece.length label⟩ := by
  unfold cutTurn at h
  split at h
  · rename_i hend
    cases h
    exact .inl ⟨List.drop_eq_nil_of_le hend, rfl⟩
  · rename_i hlt
    obtain ⟨⟨length, label, s'⟩, hp, ht⟩ := Except.bind_ok.mp h
    cases ht
    have hne : text.drop s.cursor ≠ [] := fun e => hlt (List.drop_eq_nil_iff.mp e)
    obtain ⟨hpos, hle⟩ := (hcut s.state _ hne).ok hp
    have hlen : ((text.drop s.cursor).take length).length = length := by
      rw [List.length_take, Nat.min_eq_left hle]
    refine .inr ⟨(text.drop s.cursor).take length, (text.drop s.cursor).drop length, label, s',
      (List.take_append_drop length _).symm, ?_, ?_, ?_, ?_⟩
    · rw [← List.length_pos_iff, hlen]
      exact hpos
    · rw [List.take_append_drop, hp, hlen]
    · rw [hlen, List.drop_drop]
    · rw [hlen]

theorem scans_of_loop_ok (hcut : Advances cut) {n : Nat} {s : Cutting σ γ} {r : σ × List γ}
    (h : loop (cutTurn cut emit text) n s = .ok r) :
    ∃ ps, Scans cut (· = r.1) s.state (text.drop s.cursor) ps ∧
      r.2 = s.out ++ emitted emit s.cursor ps := by
  refine loop_ok (P := fun s r => ∃ ps, Scans cut (· = r.1) s.state (text.drop s.cursor) ps ∧
      r.2 = s.out ++ emitted emit s.cursor ps) (fun s r ht => ?_) (fun s s' r ht hr => ?_) h
  · rcases cutTurn_cases hcut ht with ⟨hend, he⟩ | ⟨_, _, _, _, _, _, _, _, he⟩
    · cases he
      exact ⟨[], by rw [hend]; exact .nil rfl, by simp [emitted]⟩
    · cases he
  · rcases cutTurn_cases hcut ht with ⟨_, he⟩ | ⟨piece, rest, label, _, hd, hne, hc, hrest, he⟩
    · cases he
    · cases he
      obtain ⟨ps, hps, hout⟩ := hr
      rw [hrest] at hps
      exact ⟨(piece, label) :: ps, by rw [hd]; exact .cons hne hc hps, by simp [hout, emitted]⟩

theorem loop_of_scans_ok {st st' : σ} {rest : List α} {ps : List (List α × β)}
    (h : Scans cut (· = st') st rest ps) {n : Nat} {s : Cutting σ γ} (hst : s.state = st)
    (hrest : text.drop s.cursor = rest) (hn : rest.length < n) :
    loop (cutTurn cut emit text) n s = .ok (st', s.out ++ emitted emit s.cursor ps) := by
  induction h generalizing n s with
  | nil hf =>
    obtain ⟨n, rfl⟩ := Nat.exists_eq_succ_of_ne_zero (Nat.ne_of_gt (Nat.zero_lt_of_lt hn))
    unfold loop cutTurn
    rw [if_pos (List.drop_eq_nil_iff.mp hrest), emitted, List.append_nil, hst, hf]
    rfl
  | @cons st st1 piece rest label ps hne hc _ ih =>
    obtain ⟨n, rfl⟩ := Nat.exists_eq_succ_of_ne_zero (Nat.ne_of_gt (Nat.zero_lt_of_lt hn))
    have hpos := List.length_pos_iff.mpr hne
    rw [List.length_append] at hn
    have hlt : ¬ text.length ≤ s.cursor := by
      rw [← List.drop_eq_nil_iff, hrest]
      exact List.append_ne_nil_of_left_ne_nil hne rest
    have hrest' : text.drop (s.cursor + piece.length) = rest := by
      rw [← List.drop_drop, hrest, List.drop_left]
    have hturn : cutTurn cut emit text s = .ok (.next ⟨s.cursor + piece.length, st1,
        s.out ++ emit s.cursor piece.length label⟩) := by
      unfold cutTurn
      rw [if_neg hlt, hst, hrest, hc]
      rfl
    unfold loop
    rw [hturn]
    refine (ih rfl hrest' (by omega)).trans ?_
    rw [emitted, List.append_assoc]

theorem cutAll_iff (hcut : Advances cut) {s s' : σ} {out : List γ} :
    cutAll cut emit text s = .ok (s', out) ↔
      ∃ ps, Scans cut (· = s') s text ps ∧ out = emitted emit 0 ps := by
  constructor
  · intro h
    exact scans_of_loop_ok hcut h
  · rintro ⟨ps, hps, rfl⟩
    exact loop_of_scans_ok hps rfl rfl (Nat.lt_succ_self _)

end LinguaMesh
