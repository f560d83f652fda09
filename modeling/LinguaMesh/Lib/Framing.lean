/-!
# Streams of framed events

A byte stream is cut into events by a `Framing`: `boundary b` is the position
and the length of the delimiter that ends the first event of `b`. A receiver
gets the stream in chunks, drains its buffer after each chunk and hands the
messages of the drained events on, up to the first one that completes the
stream; when an event fails, the messages of its chunk are lost.

A boundary that is found in a buffer is found in the part of the buffer up to
it (`boundary_take`), but a longer buffer may have an earlier or a later one.
`Reads B x`: cutting `B` event by event, at boundaries that some buffer has,
gives the result `x`. `receive_agree_iff`: the chunks do not matter exactly
when `B` has one such result and no drain loses a message. `receive_accepted`: when no
event fails, a receiver hands on what the events give that it cuts off (`arrivals`).
-/

namespace LinguaMesh.Framing

/-- How a buffer is cut into events. -/
structure Framing (β : Type) where
  boundary : List β → Option (Nat × Nat)
  boundary_le : ∀ {b p d}, boundary b = some (p, d) → 0 < d ∧ p + d ≤ b.length
  boundary_take : ∀ {b p d}, boundary b = some (p, d) → boundary (b.take (p + d)) = some (p, d)

variable {β ε μ φ : Type}

/-- The events of a buffer in order: their messages up to the first failure, and the error or the
rest of the buffer. -/
def drain (f : Framing β) (parse : List β → Except ε (Option μ)) :
    Nat → List β → List μ × Except ε (List β)
  | 0, b => ([], .ok b)
  | fuel + 1, b =>
    match f.boundary b with
    | none => ([], .ok b)
    | some (p, d) =>
      match parse (b.take p) with
      | .error e => ([], .error e)
      | .ok m =>
        let rest := drain f parse fuel (b.drop (p + d))
        (m.toList ++ rest.1, rest.2)

/-- What is handed on, and whether a message completed the stream. -/
def deliver (forward : μ → List φ × Bool) : List μ → List φ × Bool
  | [] => ([], false)
  | m :: ms =>
    if (forward m).2 then ((forward m).1, true)
    else ((forward m).1 ++ (deliver forward ms).1, (deliver forward ms).2)

/-- What a run hands on and how it ends; `atEnd` is the error when the stream ends first. -/
def receive (f : Framing β) (parse : List β → Except ε (Option μ)) (forward : μ → List φ × Bool)
    (atEnd : ε) : List β → List (List β) → List φ × Except ε Unit
  | _, [] => ([], .error atEnd)
  | b, c :: cs =>
    match drain f parse (b ++ c).length (b ++ c) with
    | (_, .error e) => ([], .error e)
    | (ms, .ok b') =>
      if (deliver forward ms).2 then ((deliver forward ms).1, .ok ())
      else ((deliver forward ms).1 ++ (receive f parse forward atEnd b' cs).1,
        (receive f parse forward atEnd b' cs).2)

/-- `B` begins with the event `e` and a delimiter; `R` comes after it. -/
def Cut (f : Framing β) (B e R : List β) : Prop :=
  ∃ δ, B = e ++ δ ++ R ∧ f.boundary (e ++ δ) = some (e.length, δ.length)

/-- One event at a time. -/
inductive Reads (f : Framing β) (parse : List β → Except ε (Option μ))
    (forward : μ → List φ × Bool) (atEnd : ε) : List β → List φ × Except ε Unit → Prop
  | ended {B : List β} (h : f.boundary B = none) : Reads f parse forward atEnd B ([], .error atEnd)
  | failed {B e R : List β} {err : ε} (h : Cut f B e R) (he : parse e = .error err) :
      Reads f parse forward atEnd B ([], .error err)
  | next {B e R : List β} {m : Option μ} {fs : List φ} {x : List φ × Except ε Unit} (h : Cut f B e R)
      (he : parse e = .ok m) (hm : deliver forward m.toList = (fs, false))
      (hr : Reads f parse forward atEnd R x) : Reads f parse forward atEnd B (fs ++ x.1, x.2)
  | done {B e R : List β} {m : Option μ} {fs : List φ} (h : Cut f B e R) (he : parse e = .ok m)
      (hm : deliver forward m.toList = (fs, true)) : Reads f parse forward atEnd B (fs, .ok ())

/-- `R` is left of `B` after some events that neither fail nor complete; `fs` was handed on. -/
inductive Reach (f : Framing β) (parse : List β → Except ε (Option μ))
    (forward : μ → List φ × Bool) : List β → List φ → List β → Prop
  | refl (B : List β) : Reach f parse forward B [] B
  | step {B e R S : List β} {m : Option μ} {fs gs : List φ} (h : Cut f B e R)
      (he : parse e = .ok m) (hm : deliver forward m.toList = (fs, false))
      (hr : Reach f parse forward R gs S) : Reach f parse forward B (fs ++ gs) S

/-- Every way of cutting `B` gives one result. -/
def Unambiguous (f : Framing β) (parse : List β → Except ε (Option μ))
    (forward : μ → List φ × Bool) (atEnd : ε) (B : List β) : Prop :=
  ∀ x y, Reads f parse forward atEnd B x → Reads f parse forward atEnd B y → x = y

/-- No stretch of `B`, from an event's start on, has a failing event after a message that would be
handed on or would complete the stream. -/
def NoLoss (f : Framing β) (parse : List β → Except ε (Option μ)) (forward : μ → List φ × Bool)
    (B : List β) : Prop :=
  ∀ fs b c ms e, Reach f parse forward B fs (b ++ c) →
    drain f parse b.length b = (ms, .error e) → deliver forward ms = ([], false)

section

variable {f : Framing β} {parse : List β → Except ε (Option μ)} {forward : μ → List φ × Bool}
  {atEnd : ε}

theorem boundary_nil : f.boundary [] = none := by
  cases h : f.boundary [] with
  | none => rfl
  | some x =>
    have := f.boundary_le (p := x.1) (d := x.2) h
    simp only [List.length_nil] at this
    omega

theorem cut_of_boundary {b c : List β} {p d : Nat} (h : f.boundary b = some (p, d)) :
    Cut f (b ++ c) (b.take p) (b.drop (p + d) ++ c) := by
  obtain ⟨-, hl⟩ := f.boundary_le h
  have hsplit : b.take (p + d) = b.take p ++ (b.take (p + d)).drop p := by
    have := List.take_append_drop p (b.take (p + d))
    rw [List.take_take, Nat.min_eq_left (by omega)] at this
    exact this.symm
  refine ⟨(b.take (p + d)).drop p, ?_, ?_⟩
  · rw [← hsplit, ← List.append_assoc, List.take_append_drop]
  · rw [← hsplit, f.boundary_take h, List.length_take_of_le (by omega), List.length_drop,
      List.length_take_of_le hl, Nat.add_sub_cancel_left]

theorem deliver_append (ms ns : List μ) : deliver forward (ms ++ ns) =
    if (deliver forward ms).2 then deliver forward ms
    else ((deliver forward ms).1 ++ (deliver forward ns).1, (deliver forward ns).2) := by
  induction ms with
  | nil => rfl
  | cons m ms ih =>
    simp only [List.cons_append, deliver, ih]
    by_cases hm : (forward m).2 = true
    · simp only [hm, ↓reduceIte]
    · simp only [hm, Bool.false_eq_true, ↓reduceIte]
      by_cases hs : (deliver forward ms).2 = true
      · simp only [hs, ↓reduceIte]
      · simp only [hs, Bool.false_eq_true, ↓reduceIte, List.append_assoc]

/-- One round of a drain. -/
theorem drain_succ {n : Nat} {b : List β} {ms : List μ} {res : Except ε (List β)}
    (h : drain f parse (n + 1) b = (ms, res)) :
    (f.boundary b = none ∧ ms = [] ∧ res = .ok b) ∨
    ∃ p d, f.boundary b = some (p, d) ∧
      ((∃ e, parse (b.take p) = .error e ∧ ms = [] ∧ res = .error e) ∨
        ∃ m ns, parse (b.take p) = .ok m ∧ drain f parse n (b.drop (p + d)) = (ns, res) ∧
          ms = m.toList ++ ns) := by
  rw [drain] at h
  split at h
  · rename_i hb
    cases h
    exact .inl ⟨hb, rfl, rfl⟩
  · rename_i p d hb
    refine .inr ⟨p, d, hb, ?_⟩
    split at h
    · rename_i e he
      cases h
      exact .inl ⟨e, he, rfl, rfl⟩
    · rename_i m hm
      cases h
      exact .inr ⟨m, _, hm, rfl, rfl⟩

theorem drain_rest {n : Nat} {b b' : List β} {ms : List μ} (hn : b.length ≤ n)
    (h : drain f parse n b = (ms, .ok b')) : f.boundary b' = none := by
  induction n generalizing b ms with
  | zero =>
    obtain rfl := List.length_eq_zero_iff.mp (Nat.le_zero.mp hn)
    cases h
    exact boundary_nil
  | succ n ih =>
    rcases drain_succ h with ⟨hb, -, hr⟩ | ⟨p, d, hb, ⟨e, -, -, hr⟩ | ⟨m, ns, -, hr, -⟩⟩
    · cases hr
      exact hb
    · cases hr
    · have := f.boundary_le hb
      exact ih (by rw [List.length_drop]; omega) hr

variable (forward) in
/-- A drain reads one event at a time. -/
theorem reads_of_drain {n : Nat} {b : List β} (c : List β) {ms : List μ}
    {res : Except ε (List β)} (h : drain f parse n b = (ms, res)) :
    ((deliver forward ms).2 = true →
      Reads f parse forward atEnd (b ++ c) ((deliver forward ms).1, .ok ())) ∧
    ((deliver forward ms).2 = false →
      (∀ e, res = .error e →
        Reads f parse forward atEnd (b ++ c) ((deliver forward ms).1, .error e)) ∧
      ∀ b', res = .ok b' → Reach f parse forward (b ++ c) (deliver forward ms).1 (b' ++ c) ∧
        ∀ x, Reads f parse forward atEnd (b' ++ c) x →
          Reads f parse forward atEnd (b ++ c) ((deliver forward ms).1 ++ x.1, x.2)) := by
  induction n generalizing b ms with
  | zero =>
    cases h
    refine ⟨(nomatch ·), fun _ => ⟨fun e he => (nomatch he), ?_⟩⟩
    rintro b' ⟨⟩
    exact ⟨.refl _, fun x hx => hx⟩
  | succ n ih =>
    rcases drain_succ h with ⟨-, rfl, rfl⟩ | ⟨p, d, hb, ⟨e, he, rfl, rfl⟩ | ⟨m, ns, hm, hr, rfl⟩⟩
    · refine ⟨(nomatch ·), fun _ => ⟨fun e he => (nomatch he), ?_⟩⟩
      rintro b' ⟨⟩
      exact ⟨.refl _, fun x hx => hx⟩
    · refine ⟨(nomatch ·), fun _ => ⟨?_, fun b' h => (nomatch h)⟩⟩
      rintro e' ⟨⟩
      exact .failed (cut_of_boundary hb) he
    · obtain ⟨ih1, ih2⟩ := ih hr
      have hcut := cut_of_boundary (c := c) hb
      rw [deliver_append]
      by_cases hd : (deliver forward m.toList).2 = true
      · simp only [hd, ↓reduceIte, Bool.true_eq_false, false_implies, and_true, forall_const]
        exact .done hcut hm (Prod.ext rfl hd)
      · simp only [hd, Bool.false_eq_true, ↓reduceIte]
        have hd' : deliver forward m.toList = ((deliver forward m.toList).1, false) :=
          Prod.ext rfl (eq_false_of_ne_true hd)
        refine ⟨fun h => .next hcut hm hd' (ih1 h), fun h => ⟨fun e he => ?_, fun b' hb' => ?_⟩⟩
        · exact .next hcut hm hd' ((ih2 h).1 e he)
        · obtain ⟨h1, h2⟩ := (ih2 h).2 b' hb'
          refine ⟨.step hcut hm hd' h1, fun x hx => ?_⟩
          rw [List.append_assoc]
          exact .next hcut hm hd' (h2 x hx)

theorem Reach.trans {B R S : List β} {fs gs : List φ} (h : Reach f parse forward B fs R)
    (h' : Reach f parse forward R gs S) : Reach f parse forward B (fs ++ gs) S := by
  induction h with
  | refl => exact h'
  | step hc he hm _ ih =>
    rw [List.append_assoc]
    exact .step hc he hm (ih h')

/-- Without losses every run reads the stream one event at a time. -/
theorem reads_of_receive {b : List β} {cs : List (List β)} (hb : f.boundary b = none)
    (hl : NoLoss f parse forward (b ++ cs.flatten)) :
    Reads f parse forward atEnd (b ++ cs.flatten) (receive f parse forward atEnd b cs) := by
  induction cs generalizing b with
  | nil =>
    rw [List.flatten_nil, List.append_nil]
    exact .ended hb
  | cons c cs ih =>
    rw [List.flatten_cons, ← List.append_assoc] at hl ⊢
    rw [receive]
    cases hd : drain f parse (b ++ c).length (b ++ c) with
    | mk ms res =>
      obtain ⟨h1, h2⟩ := reads_of_drain forward cs.flatten hd
      cases res with
      | error e =>
        have h0 := hl [] (b ++ c) cs.flatten ms e (.refl _) hd
        have := (h2 (by rw [h0])).1 e rfl
        rw [h0] at this
        exact this
      | ok b' =>
        by_cases hs : (deliver forward ms).2 = true
        · simp only [hs, ↓reduceIte]
          exact h1 hs
        · simp only [hs, Bool.false_eq_true, ↓reduceIte]
          obtain ⟨h3, h4⟩ := (h2 (eq_false_of_ne_true hs)).2 b' rfl
          refine h4 _ (ih (drain_rest (Nat.le_refl _) hd) ?_)
          intro fs b'' c'' ms' e hr hd'
          exact hl _ b'' c'' ms' e (h3.trans hr) hd'

/-! ## Chunks of one event -/

theorem drain_event {e δ : List β} (h : f.boundary (e ++ δ) = some (e.length, δ.length)) :
    drain f parse (e ++ δ).length (e ++ δ) =
      match parse e with
      | .error err => ([], .error err)
      | .ok m => (m.toList, .ok []) := by
  have hpos := (f.boundary_le h).1
  obtain ⟨n, hn⟩ : ∃ n, (e ++ δ).length = n + 1 := ⟨(e ++ δ).length - 1, by
    rw [List.length_append]
    omega⟩
  rw [hn, drain, h]
  simp only [List.take_left]
  cases parse e with
  | error err => rfl
  | ok m =>
    have : (e ++ δ).drop (e.length + δ.length) = [] :=
      List.drop_of_length_le (Nat.le_of_eq List.length_append)
    rw [this]
    cases n <;> simp [drain, boundary_nil]

theorem receive_event {e δ : List β} {m : Option μ} {fs : List φ} {done : Bool}
    (h : f.boundary (e ++ δ) = some (e.length, δ.length)) (he : parse e = .ok m)
    (hm : deliver forward m.toList = (fs, done)) (cs : List (List β)) :
    receive f parse forward atEnd [] ((e ++ δ) :: cs) =
      if done then (fs, .ok ())
      else (fs ++ (receive f parse forward atEnd [] cs).1, (receive f parse forward atEnd [] cs).2) := by
  rw [receive, List.nil_append, drain_event h, he]
  simp only [hm]

/-- Every reading is a run, with an event a chunk. -/
theorem receive_of_reads {B : List β} {x : List φ × Except ε Unit} (h : Reads f parse forward atEnd B x) :
    ∃ cs, cs.flatten = B ∧ receive f parse forward atEnd [] cs = x := by
  induction h with
  | @ended B h =>
    refine ⟨[B], by simp, ?_⟩
    have hd : drain f parse B.length B = ([], .ok B) := by
      cases hB : B.length <;> simp [drain, h]
    simp [receive, hd, deliver]
  | @failed B e R err h he =>
    obtain ⟨δ, rfl, hδ⟩ := h
    refine ⟨[e ++ δ, R], by simp, ?_⟩
    rw [receive, List.nil_append, drain_event hδ, he]
  | @next B e R m fs x h he hm _ ih =>
    obtain ⟨δ, rfl, hδ⟩ := h
    obtain ⟨cs, rfl, rfl⟩ := ih
    exact ⟨(e ++ δ) :: cs, by simp, receive_event hδ he hm cs⟩
  | @done B e R m fs h he hm =>
    obtain ⟨δ, rfl, hδ⟩ := h
    exact ⟨[e ++ δ, R], by simp, receive_event hδ he hm [R]⟩

theorem receive_of_reach {B R : List β} {fs : List φ} (h : Reach f parse forward B fs R) :
    ∃ cs, cs.flatten ++ R = B ∧ ∀ ds, receive f parse forward atEnd [] (cs ++ ds) =
      (fs ++ (receive f parse forward atEnd [] ds).1, (receive f parse forward atEnd [] ds).2) := by
  induction h with
  | refl B => exact ⟨[], rfl, fun ds => rfl⟩
  | @step B e R S m fs gs h he hm _ ih =>
    obtain ⟨δ, rfl, hδ⟩ := h
    obtain ⟨cs, rfl, hcs⟩ := ih
    refine ⟨(e ++ δ) :: cs, by simp, fun ds => ?_⟩
    rw [List.cons_append, receive_event hδ he hm, hcs]
    simp only [Bool.false_eq_true, ↓reduceIte, List.append_assoc]

variable (atEnd) in
/-- The chunks of a stream do not matter exactly when it can be cut in one way and no drain loses
a message. -/
theorem receive_agree_iff (B : List β) :
    (∀ cs ds, cs.flatten = B → ds.flatten = B →
      receive f parse forward atEnd [] cs = receive f parse forward atEnd [] ds) ↔
    Unambiguous f parse forward atEnd B ∧ NoLoss f parse forward B := by
  constructor
  · intro h
    refine ⟨fun x y hx hy => ?_, fun fs b c ms e hr hd => ?_⟩
    · obtain ⟨cs, hc, rfl⟩ := receive_of_reads hx
      obtain ⟨ds, hd, rfl⟩ := receive_of_reads hy
      exact h cs ds hc hd
    · obtain ⟨cs, hc, hcs⟩ := receive_of_reach hr
      obtain ⟨h1, h2⟩ := reads_of_drain forward c hd
      have hb : receive f parse forward atEnd [] [b, c] = ([], .error e) := by
        rw [receive, List.nil_append, hd]
      -- the same bytes, from there on one event at a time
      have key : ∀ x, Reads f parse forward atEnd (b ++ c) x → x = ([], .error e) := by
        intro x hx
        obtain ⟨ds, hds, rfl⟩ := receive_of_reads hx
        have := h (cs ++ [b, c]) (cs ++ ds) (by simpa using hc)
          (by rw [List.flatten_append, hds, hc])
        rw [hcs, hcs, hb, List.append_nil] at this
        have h3 := congrArg Prod.fst this
        have h4 := congrArg Prod.snd this
        simp only [List.self_eq_append_right] at h3
        exact Prod.ext h3 h4.symm
      by_cases hs : (deliver forward ms).2 = true
      · have := congrArg Prod.snd (key _ (h1 hs))
        cases this
      · have hs := eq_false_of_ne_true hs
        have := key _ ((h2 hs).1 e rfl)
        exact Prod.ext (Prod.mk.inj this).1 hs
  · rintro ⟨hu, hl⟩ cs ds rfl hd
    have h1 : Reads f parse forward atEnd ([] ++ cs.flatten) (receive f parse forward atEnd [] cs) :=
      reads_of_receive boundary_nil hl
    have h2 : Reads f parse forward atEnd ([] ++ ds.flatten) (receive f parse forward atEnd [] ds) :=
      reads_of_receive boundary_nil (by rw [List.nil_append, hd]; exact hl)
    rw [List.nil_append] at h1 h2
    rw [hd] at h2
    exact hu _ _ h1 h2

/-! ## Streams in which no event fails -/

/-- The events of a buffer, and the rest of it. -/
def cuts (f : Framing β) : Nat → List β → List (List β) × List β
  | 0, b => ([], b)
  | fuel + 1, b =>
    match f.boundary b with
    | none => ([], b)
    | some (p, d) => (b.take p :: (cuts f fuel (b.drop (p + d))).1, (cuts f fuel (b.drop (p + d))).2)

/-- The events that are cut off as the chunks come in. -/
def arrivals (f : Framing β) : List β → List (List β) → List (List β)
  | _, [] => []
  | b, c :: cs =>
    (cuts f (b ++ c).length (b ++ c)).1 ++ arrivals f (cuts f (b ++ c).length (b ++ c)).2 cs

/-- The events are accepted, and each gives the receiver what `handed` says. -/
def AllAccepted (parse : List β → Except ε (Option μ)) (forward : μ → List φ × Bool)
    (handed : List β → List φ × Bool) (events : List (List β)) : Prop :=
  ∀ e ∈ events, ∃ m, parse e = .ok m ∧ deliver forward m.toList = handed e

variable {handed : List β → List φ × Bool}

theorem deliver_cons (m : μ) (ms : List μ) :
    deliver forward (m :: ms) =
      if (forward m).2 then ((forward m).1, true)
      else ((forward m).1 ++ (deliver forward ms).1, (deliver forward ms).2) := rfl

theorem drain_accepted {n : Nat} {b : List β} (h : AllAccepted parse forward handed (cuts f n b).1) :
    ∃ ms, drain f parse n b = (ms, .ok (cuts f n b).2) ∧
      deliver forward ms = deliver handed (cuts f n b).1 := by
  induction n generalizing b with
  | zero => exact ⟨[], rfl, rfl⟩
  | succ n ih =>
    rw [drain, cuts] at *
    cases hb : f.boundary b with
    | none => exact ⟨[], rfl, rfl⟩
    | some x =>
      obtain ⟨p, d⟩ := x
      rw [hb] at h
      dsimp only at h ⊢
      obtain ⟨m, hm, hgiven⟩ := h _ List.mem_cons_self
      obtain ⟨ms, hdrain, hdeliver⟩ := ih fun e he => h e (List.mem_cons_of_mem _ he)
      rw [hm, hdrain]
      refine ⟨m.toList ++ ms, rfl, ?_⟩
      rw [deliver_append, deliver_cons, hgiven, hdeliver]
      cases hdone : (handed (b.take p)).2 with
      | true => exact Prod.ext rfl hdone
      | false => rfl

theorem receive_accepted {b : List β} {cs : List (List β)}
    (h : AllAccepted parse forward handed (arrivals f b cs)) :
    receive f parse forward atEnd b cs =
      ((deliver handed (arrivals f b cs)).1,
        if (deliver handed (arrivals f b cs)).2 then .ok () else .error atEnd) := by
  induction cs generalizing b with
  | nil => rfl
  | cons c cs ih =>
    obtain ⟨hfirst, hrest⟩ := List.forall_mem_append.mp h
    obtain ⟨ms, hdrain, hdeliver⟩ := drain_accepted hfirst
    rw [receive, hdrain, arrivals, deliver_append]
    dsimp only
    rw [hdeliver, ih hrest]
    cases hdone : (deliver handed (cuts f (b ++ c).length (b ++ c)).1).2 with
    | true => simp only [hdone, ↓reduceIte]
    | false => simp only [Bool.false_eq_true, ↓reduceIte]

/-! ## Streams that are cut in one way -/

/-- What a rest that begins with the event `e`, and with no other, can give. -/
theorem Reads.of_cut (hmono : ∀ b c, f.boundary b ≠ none → f.boundary (b ++ c) ≠ none)
    {R e S : List β} (hc : Cut f R e S) (hu : ∀ e' S', Cut f R e' S' → e' = e ∧ S' = S)
    {y : List φ × Except ε Unit} (hy : Reads f parse forward atEnd R y) :
    (∃ err, parse e = .error err ∧ y = ([], .error err)) ∨
    ∃ m, parse e = .ok m ∧
      ((∃ x, (deliver forward m.toList).2 = false ∧ Reads f parse forward atEnd S x ∧
          y = ((deliver forward m.toList).1 ++ x.1, x.2)) ∨
        ((deliver forward m.toList).2 = true ∧ y = ((deliver forward m.toList).1, .ok ()))) := by
  cases hy with
  | ended h =>
    obtain ⟨δ, rfl, hδ⟩ := hc
    exact absurd h (hmono (e ++ δ) S (by rw [hδ]; exact nofun))
  | failed hc' he =>
    obtain ⟨rfl, rfl⟩ := hu _ _ hc'
    exact .inl ⟨_, he, rfl⟩
  | next hc' he hm hr =>
    obtain ⟨rfl, rfl⟩ := hu _ _ hc'
    exact .inr ⟨_, he, .inl ⟨_, by rw [hm], hr, by rw [hm]⟩⟩
  | done hc' he hm =>
    obtain ⟨rfl, rfl⟩ := hu _ _ hc'
    exact .inr ⟨_, he, .inr ⟨by rw [hm], by rw [hm]⟩⟩

/-- A stream whose every rest begins with at most one event is cut in one way. -/
theorem unambiguous_of_cut (hmono : ∀ b c, f.boundary b ≠ none → f.boundary (b ++ c) ≠ none)
    {B : List β} (hcut : ∀ A R, B = A ++ R → ∀ e S e' S', Cut f R e S → Cut f R e' S' →
      e = e' ∧ S = S') : Unambiguous f parse forward atEnd B := by
  suffices h : ∀ R x, Reads f parse forward atEnd R x → ∀ A, B = A ++ R →
      ∀ y, Reads f parse forward atEnd R y → x = y from fun x y hx hy => h B x hx [] rfl y hy
  intro R x hx
  induction hx with
  | ended h =>
    intro A hA y hy
    cases hy with
    | ended => rfl
    | failed hc | next hc | done hc =>
      obtain ⟨δ, rfl, hδ⟩ := hc
      exact absurd h (hmono _ _ (by rw [hδ]; exact nofun))
  | failed hc he =>
    intro A hA y hy
    rcases hy.of_cut hmono hc (fun _ _ hc' => hcut A _ hA _ _ _ _ hc' hc) with
      ⟨_, he', rfl⟩ | ⟨_, he', -⟩
    · rw [he] at he'
      cases he'
      rfl
    · rw [he] at he'
      cases he'
  | @next R e S m fs x hc he hm _ ih =>
    intro A hA y hy
    rcases hy.of_cut hmono hc (fun _ _ hc' => hcut A _ hA _ _ _ _ hc' hc) with
      ⟨_, he', -⟩ | ⟨_, he', h⟩ <;> rw [he] at he' <;> cases he'
    rw [hm] at h
    rcases h with ⟨x', -, hr, rfl⟩ | ⟨h, -⟩
    · obtain ⟨δ, rfl, -⟩ := hc
      rw [ih (A ++ (e ++ δ)) (by rw [hA]; simp) _ hr]
    · cases h
  | done hc he hm =>
    intro A hA y hy
    rcases hy.of_cut hmono hc (fun _ _ hc' => hcut A _ hA _ _ _ _ hc' hc) with
      ⟨_, he', -⟩ | ⟨_, he', h⟩ <;> rw [he] at he' <;> cases he'
    rw [hm] at h
    rcases h with ⟨x', h, -⟩ | ⟨-, rfl⟩
    · cases h
    · rfl

end

end LinguaMesh.Framing
