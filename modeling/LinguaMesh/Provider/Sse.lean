import LinguaMesh.Lib.Framing
import LinguaMesh.Domain.Errors
import LinguaMesh.Domain.Usage
import LinguaMesh.Domain.Utf8

/-!
# Server-sent events

What the stream decoders of the providers share: the boundary search, the drain
loop of `push`, and the part of `parse_event` that gets the data of an event. `serde_json::from_str` is a
parameter for each type that is read (`FromJson`).

`sseFraming` puts the boundary search under the library's rules; `Bounded` is
the case in which every event has one possible end.
-/

namespace LinguaMesh

open Search Framing

structure UsageResponse where
  inputTokens : Option Nat
  outputTokens : Option Nat
  totalTokens : Option Nat
  deriving DecidableEq, Repr

def UsageResponse.intoRecord (u : UsageResponse) : UsageRecord :=
  UsageRecord.providerReported u.inputTokens u.outputTokens u.totalTokens

/-- `serde_json::from_str`, `none` for an error. -/
class FromJson (α : Type) where
  fromStr : Str → Option α

/-- The parser that takes no text for a value of the type. -/
@[reducible] def noJson {α : Type} : FromJson α := ⟨fun _ => none⟩

/-! ## Text of an event -/

/-- `str::split_inclusive('\n')`. -/
def splitInclusive : Str → List Str
  | [] => []
  | c :: cs =>
    if c = '\n' then [c] :: splitInclusive cs
    else match splitInclusive cs with
    | [] => [[c]]
    | line :: lines => (c :: line) :: lines

/-- A line without its ending; a carriage return belongs to it before a line feed only. -/
def stripLineEnd (line : Str) : Str :=
  if line.getLast? = some '\n' then
    if line.dropLast.getLast? = some '\r' then line.dropLast.dropLast else line.dropLast
  else line

/-- `str::lines`. -/
def lines (text : Str) : List Str := (splitInclusive text).map stripLineEnd

def stripDataPrefix (line : Str) : Option Str :=
  if "data:".toList.isPrefixOf line then some (line.drop 5) else none

/-- The data lines of an event, joined. -/
def eventData (event : Bytes) : Except TranslationError Str :=
  match fromUtf8 event with
  | none => .error (.new .malformedResponse "Provider stream contained invalid UTF-8.")
  | some text =>
    .ok (List.intercalate ['\n'] (((lines text).filterMap stripDataPrefix).map trimStart))

/-! ## Events of a buffer -/

def lfDelimiter : Bytes := [0x0A, 0x0A]
def crlfDelimiter : Bytes := [0x0D, 0x0A, 0x0D, 0x0A]

def findEventBoundary (buffer : Bytes) : Option (Nat × Nat) :=
  match find lfDelimiter buffer with
  | some position => some (position, 2)
  | none => (find crlfDelimiter buffer).map fun position => (position, 4)

/-- The loop of `push`; every round takes bytes off the buffer, so its length is fuel enough. -/
def drainEvents {μ : Type} (parse : Bytes → Except TranslationError (Option μ)) :
    Nat → Bytes → List μ → Except TranslationError (List μ × Bytes)
  | 0, buffer, output => .ok (output, buffer)
  | fuel + 1, buffer, output =>
    match findEventBoundary buffer with
    | none => .ok (output, buffer)
    | some (position, delimiterLen) => do
      let message ← parse (buffer.take position)
      drainEvents parse fuel (buffer.drop (position + delimiterLen)) (output ++ message.toList)

theorem findEventBoundary_eq {b : Bytes} {p d : Nat} : findEventBoundary b = some (p, d) ↔
    (find lfDelimiter b = some p ∧ d = 2) ∨
      (find lfDelimiter b = none ∧ find crlfDelimiter b = some p ∧ d = 4) := by
  unfold findEventBoundary
  cases find lfDelimiter b with
  | some q => simp [eq_comm]
  | none => simp [eq_comm]

def sseFraming : Framing UInt8 where
  boundary := findEventBoundary
  boundary_le := by
    intro b p d h
    rcases findEventBoundary_eq.mp h with ⟨hf, rfl⟩ | ⟨-, hf, rfl⟩
    · exact ⟨by decide, find_le_length hf⟩
    · exact ⟨by decide, find_le_length hf⟩
  boundary_take := by
    intro b p d h
    rw [findEventBoundary_eq]
    rcases findEventBoundary_eq.mp h with ⟨hf, rfl⟩ | ⟨hn, hf, rfl⟩
    · exact .inl ⟨find_take hf (Nat.le_refl _), rfl⟩
    · exact .inr ⟨find_none_mono (List.take_prefix ..).isInfix hn, find_take hf (Nat.le_refl _), rfl⟩

/-- The drain loop is the library's, with the messages before a failure dropped. -/
theorem drainEvents_eq {μ : Type} (parse : Bytes → Except TranslationError (Option μ))
    (fuel : Nat) (buffer : Bytes) (output : List μ) :
    drainEvents parse fuel buffer output =
      match drain sseFraming parse fuel buffer with
      | (_, .error e) => .error e
      | (ms, .ok rest) => .ok (output ++ ms, rest) := by
  induction fuel generalizing buffer output with
  | zero => simp [drainEvents, drain]
  | succ fuel ih =>
    have hs : sseFraming.boundary buffer = findEventBoundary buffer := rfl
    rw [drainEvents, drain, hs]
    cases findEventBoundary buffer with
    | none => simp
    | some x =>
      obtain ⟨p, d⟩ := x
      dsimp only
      cases parse (buffer.take p) with
      | error e => rfl
      | ok m =>
        rw [Except.ok_bind, ih]
        obtain ⟨ms, res⟩ := drain sseFraming parse fuel (buffer.drop (p + d))
        cases res with
        | error e => rfl
        | ok rest => simp

/-- The messages of a sequence of events. -/
def decodeEvents {μ : Type} (parse : Bytes → Except TranslationError (Option μ)) :
    List Bytes → Except TranslationError (List μ)
  | [] => .ok []
  | event :: events => do
    let message ← parse event
    let messages ← decodeEvents parse events
    .ok (message.toList ++ messages)

/-- Events with a line-feed delimiter after each, pushed at once, give their messages. -/
theorem drainEvents_events {μ : Type} (parse : Bytes → Except TranslationError (Option μ))
    {events : List Bytes} (he : ∀ e ∈ events, find lfDelimiter (e ++ lfDelimiter) = some e.length)
    {fuel : Nat} (hf : events.length ≤ fuel) (output : List μ) :
    drainEvents parse fuel (events.flatMap (· ++ lfDelimiter)) output =
      (decodeEvents parse events).map fun messages => (output ++ messages, []) := by
  have hnil : findEventBoundary [] = none := by decide
  induction events generalizing fuel output with
  | nil => cases fuel <;> simp [drainEvents, decodeEvents, hnil, Except.map]
  | cons e es ih =>
    obtain ⟨fuel, rfl⟩ : ∃ n, fuel = n + 1 := ⟨fuel - 1, by
      simp only [List.length_cons] at hf
      omega⟩
    have hfind : find lfDelimiter (e ++ lfDelimiter ++ es.flatMap (· ++ lfDelimiter)) =
        some e.length := by
      refine find_first fun A' B' e' => ?_
      by_contra hlt
      obtain ⟨x, hx⟩ : A' ++ lfDelimiter <+: e ++ lfDelimiter :=
        prefix_of_le ⟨B', rfl⟩ ⟨_, e'⟩ (by simp only [List.length_append]; omega)
      have := (find_eq_some (he e (List.mem_cons_self ..))).2 A' x hx.symm
      omega
    have hb : findEventBoundary (e ++ lfDelimiter ++ es.flatMap (· ++ lfDelimiter)) =
        some (e.length, 2) := findEventBoundary_eq.mpr (.inl ⟨hfind, rfl⟩)
    rw [List.flatMap_cons, drainEvents, hb, decodeEvents]
    have htake : (e ++ lfDelimiter ++ es.flatMap (· ++ lfDelimiter)).take e.length = e := by
      rw [List.append_assoc, List.take_left]
    have hdrop : (e ++ lfDelimiter ++ es.flatMap (· ++ lfDelimiter)).drop (e.length + 2) =
        es.flatMap (· ++ lfDelimiter) := by
      rw [show e.length + 2 = (e ++ lfDelimiter).length by simp [lfDelimiter], List.drop_left]
    dsimp only
    rw [htake, hdrop]
    cases parse e with
    | error err => rfl
    | ok m =>
      rw [Except.ok_bind, Except.ok_bind,
        ih (fun d hd => he d (List.mem_cons_of_mem _ hd)) (by simpa using hf)]
      cases decodeEvents parse es with
      | error err => rfl
      | ok ms => simp [Except.map]

/-! ## Streams whose events have one possible end -/

/-- No line-feed delimiter begins at or after the last byte of a carriage-return one. -/
def Unmixed (B : Bytes) : Prop :=
  ∀ A C, B = A ++ (crlfDelimiter ++ C) → find lfDelimiter (0x0A :: C) = none

theorem boundary_mono (b c : Bytes) (h : sseFraming.boundary b ≠ none) :
    sseFraming.boundary (b ++ c) ≠ none := by
  intro hc
  refine h ?_
  have hcases : find lfDelimiter (b ++ c) = none ∧ find crlfDelimiter (b ++ c) = none := by
    revert hc
    show findEventBoundary (b ++ c) = none → _
    unfold findEventBoundary
    cases find lfDelimiter (b ++ c) with
    | some p => exact nofun
    | none => simp
  show findEventBoundary b = none
  unfold findEventBoundary
  rw [find_none_mono (List.prefix_append b c).isInfix hcases.1,
    find_none_mono (List.prefix_append b c).isInfix hcases.2]
  rfl

/-- The end of a cut: a line-feed delimiter, or a carriage-return one with no line-feed one
before. -/
theorem cut_cases {R e S : Bytes} (h : Cut sseFraming R e S) :
    (R = e ++ lfDelimiter ++ S ∧ find lfDelimiter (e ++ lfDelimiter) = some e.length) ∨
    (R = e ++ crlfDelimiter ++ S ∧ find lfDelimiter (e ++ crlfDelimiter) = none ∧
      find crlfDelimiter (e ++ crlfDelimiter) = some e.length) := by
  obtain ⟨δ, rfl, hδ⟩ := h
  have split : ∀ {pat : Bytes}, find pat (e ++ δ) = some e.length → δ.length = pat.length →
      δ = pat := by
    intro pat hf hl
    obtain ⟨⟨A, B, hAB, hA⟩, -⟩ := find_eq_some hf
    rw [List.append_assoc] at hAB
    obtain ⟨-, hd⟩ := append_length_inj hAB hA.symm
    have hB := congrArg List.length hd
    rw [List.length_append] at hB
    obtain rfl : B = [] := List.length_eq_zero_iff.mp (by omega)
    rw [hd, List.append_nil]
  rcases findEventBoundary_eq.mp hδ with ⟨hf, hl⟩ | ⟨hn, hf, hl⟩
  · have := split hf hl
    subst this
    exact .inl ⟨rfl, hf⟩
  · have := split hf hl
    subst this
    exact .inr ⟨rfl, hn, hf⟩

/-- No other delimiter of one kind ends before the first. -/
theorem find_before {pat e e' S S' : Bytes} (h : e ++ pat ++ S = e' ++ pat ++ S')
    (hl : e.length ≤ e'.length) (hf : find pat (e' ++ pat) = some e'.length) :
    e = e' ∧ S = S' := by
  obtain ⟨x, hx⟩ : e ++ pat <+: e' ++ pat :=
    prefix_of_le ⟨S, rfl⟩ ⟨S', h.symm⟩ (by simpa using hl)
  have := (find_eq_some hf).2 e x hx.symm
  rw [List.append_assoc] at hx
  obtain ⟨rfl, -⟩ := append_length_inj hx (by omega)
  exact ⟨rfl, List.append_cancel_left h⟩

theorem find_same {pat e e' S S' : Bytes} (h : e ++ pat ++ S = e' ++ pat ++ S')
    (hf : find pat (e ++ pat) = some e.length) (hf' : find pat (e' ++ pat) = some e'.length) :
    e = e' ∧ S = S' := by
  rcases Nat.le_total e.length e'.length with hl | hl
  · exact find_before h hl hf'
  · obtain ⟨h1, h2⟩ := find_before h.symm hl hf
    exact ⟨h1.symm, h2.symm⟩

theorem Unmixed.not_both {B A e e' S S' : Bytes} (hB : Unmixed B)
    (hA : B = A ++ (e' ++ crlfDelimiter ++ S'))
    (h : e ++ lfDelimiter ++ S = e' ++ crlfDelimiter ++ S')
    (hn : find lfDelimiter (e' ++ crlfDelimiter) = none) : False := by
  by_cases hl : (e ++ lfDelimiter).length ≤ (e' ++ crlfDelimiter).length
  · obtain ⟨x, hx⟩ : e ++ lfDelimiter <+: e' ++ crlfDelimiter := prefix_of_le ⟨S, rfl⟩ ⟨S', h.symm⟩ hl
    exact find_eq_none.mp hn e x hx.symm
  · have hc : crlfDelimiter = [0x0D, 0x0A, 0x0D] ++ [0x0A] := rfl
    have hx : e' ++ [0x0D, 0x0A, 0x0D] <+: e := by
      refine prefix_of_le (t := e ++ lfDelimiter ++ S) ⟨[0x0A] ++ S', ?_⟩
        ⟨lfDelimiter ++ S, by rw [List.append_assoc]⟩ ?_
      · rw [h, hc]
        simp only [List.append_assoc]
      · simp only [List.length_append, lfDelimiter, crlfDelimiter, List.length_cons,
          List.length_nil] at hl ⊢
        omega
    obtain ⟨y, rfl⟩ := hx
    refine find_eq_none.mp (hB (A ++ e') S' (by rw [hA]; simp only [List.append_assoc])) y S ?_
    rw [hc] at h
    simp only [List.append_assoc] at h
    rw [List.append_assoc]
    exact (List.append_cancel_left (List.append_cancel_left h)).symm

theorem Unmixed.cut {B : Bytes} (hB : Unmixed B) (A R : Bytes) (hA : B = A ++ R)
    (e S e' S' : Bytes) (h : Cut sseFraming R e S) (h' : Cut sseFraming R e' S') :
    e = e' ∧ S = S' := by
  rcases cut_cases h with ⟨h1, h2⟩ | ⟨h1, h2, h3⟩ <;>
    rcases cut_cases h' with ⟨h1', h2'⟩ | ⟨h1', h2', h3'⟩
  · exact find_same (h1.symm.trans h1') h2 h2'
  · exact (hB.not_both (hA.trans (by rw [h1'])) (h1.symm.trans h1') h2').elim
  · exact (hB.not_both (hA.trans (by rw [h1])) (h1'.symm.trans h1) h2).elim
  · exact find_same (h1.symm.trans h1') h3 h3'

end LinguaMesh
