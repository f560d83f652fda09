import LinguaMesh.Ffi.Buffers
import Mathlib.Data.Finset.Card

/-!
# Events and buffers of the host

Whatever the host polls and frees, and in whatever order its calls take their steps:
the events that polls take are the first ones queued, and each is in the buffer of the
poll that took it; the slots are all accounted for; and an allocation is freed once,
for a descriptor that equals its own (`buffers_delivered`).
-/

namespace LinguaMesh.Ffi.Buffers

open Runs

/-! ## The map of allocations -/

/-- The entry that a key finds, and the entries with other keys. -/
theorem perm_of_find {α ι : Type} [DecidableEq ι] {key : α → ι} {l : List α} {a : α}
    (hnodup : (l.map key).Nodup) (h : l.find? (fun b => key b = key a) = some a) :
    l.Perm (a :: l.filter fun b => key b ≠ key a) := by
  induction l with
  | nil => cases h
  | cons b l ih =>
    rw [List.map_cons, List.nodup_cons] at hnodup
    by_cases hb : key b = key a
    · rw [List.find?_cons_of_pos (by simpa using hb)] at h
      cases h
      rw [List.filter_cons_of_neg (by simp), List.filter_eq_self.mpr]
      intro c hc
      have hne : key c ≠ key a := fun he => hnodup.1 (he ▸ List.mem_map_of_mem hc)
      simpa using hne
    · rw [List.find?_cons_of_neg (by simpa using hb)] at h
      rw [List.filter_cons_of_pos (by simpa using hb)]
      exact ((ih hnodup.2 h).cons b).trans (.swap ..)

section Engine

variable {C : Type} {engine : LmEngine C} {allocation : BufferAllocation C}

/-- All allocations that the engine has ever made. -/
def LmEngine.registered (engine : LmEngine C) : List (BufferAllocation C) :=
  engine.allocations ++ engine.freed.map Prod.snd

theorem LmEngine.find_id {id : Nat} (h : engine.find id = some allocation) : allocation.id = id := by
  have := List.find?_some h
  simpa using this

theorem LmEngine.allocations_perm (hids : (engine.allocations.map (·.id)).Nodup)
    (h : engine.find allocation.id = some allocation) :
    engine.allocations.Perm (allocation :: engine.allocations.filter (·.id ≠ allocation.id)) :=
  perm_of_find hids h

theorem LmEngine.registered_remove {k : C} (hids : (engine.allocations.map (·.id)).Nodup)
    (h : engine.find allocation.id = some allocation) :
    engine.registered.Perm (engine.remove k allocation).registered := by
  unfold LmEngine.registered LmEngine.remove
  rw [List.map_append, ← List.append_assoc]
  refine ((LmEngine.allocations_perm hids h).append_right _).trans ?_
  exact (List.perm_append_singleton _ _).symm

theorem LmEngine.find_isSome {id : Nat} :
    (engine.find id).isSome ↔ id ∈ engine.allocations.map (·.id) := by
  unfold LmEngine.find
  rw [List.find?_isSome, List.mem_map]
  simp only [decide_eq_true_eq]

end Engine

/-! ## Transitions -/

section Turns

variable {E C : Type} [DecidableEq E] [DecidableEq C] (setup : Setup E C)

/-- A call on the engine `e` goes on to the phase, and the engine becomes what is given. -/
inductive Turn (s : State E C) (e : E) (k : C) : Phase → LmEngine C → Prop where
  | refuse {code : LmResultCode} : s.phase k = .called ∨ s.phase k = .admitted →
    ((setup.calls k).isOutput → code ≠ .ok) → (code = .resourceExhausted → s.phase k = .admitted) →
    Turn s e k (.returned code (setup.calls k).buffer) (s.engine e)
  | enter : s.phase k = .called → (setup.calls k).isOutput → (setup.calls k).buffer = some .null →
    Turn s e k .admitted (s.engine e)
  | reserve {slots : Nat} : s.phase k = .admitted → (s.engine e).bufferSlots = slots + 1 →
    Turn s e k .reserved { s.engine e with bufferSlots := slots }
  | fail {buffer : Option LmBuffer} : s.phase k = .reserved → (setup.calls k).isPoll = false →
    Turn s e k (.returned .internal buffer) (s.engine e).release
  | compile {bytes : ByteVec} : s.phase k = .reserved → (setup.calls k).isPoll = false →
    Turn s e k (.writing bytes) (s.engine e)
  | lock : s.phase k = .reserved → Turn s e k .receiving { s.engine e with receiver := some k }
  | miss {receiver : Option C} : s.phase k = .reserved ∨ s.phase k = .receiving →
    Turn s e k (.writing .new) { s.engine e with receiver }
  | take {event : EncodedEnvelope} {events : List EncodedEnvelope} : s.phase k = .receiving →
    (setup.calls k).isPoll → (s.engine e).events = event :: events →
    Turn s e k (.writing event.toByteVec) { s.engine e with
      events, receiver := none, taken := (s.engine e).taken ++ [(k, event)] }
  | writeEmpty {bytes : ByteVec} : s.phase k = .writing bytes → bytes.bytes = [] →
    Turn s e k (.returned .ok (some .null)) (s.engine e).release
  | write {bytes : ByteVec} {id next : Nat} : s.phase k = .writing bytes → bytes.bytes ≠ [] →
    ((s.engine e).find id).isSome = false →
    Turn s e k (.returned .ok (some (BufferAllocation.descriptor ⟨id, bytes, k⟩)))
      ((s.engine e).register k bytes id next)
  | remove {allocation : BufferAllocation C} : s.phase k = .called →
    setup.calls k = .bufferFree (some e) (some allocation.descriptor) →
    (s.engine e).find allocation.id = some allocation →
    Turn s e k .releasing ((s.engine e).remove k allocation)
  | release : s.phase k = .releasing →
    Turn s e k (.returned .ok (some .null)) (s.engine e).release
  | flag : s.phase k = .called → (setup.calls k).isOutput = false →
    Turn s e k (.returned .ok none) { s.engine e with shutdown := true }

/-- What a step can do. -/
inductive Step (s : State E C) : Action E C → State E C → Prop where
  | turn {a : Action E C} {k : C} {e : E} {phase : Phase} {engine : LmEngine C} :
    (a = .host k ∨ a = .expire k ∧ (setup.calls k).isPoll) → (setup.calls k).engine = some e →
    Turn setup s e k phase engine → Step s a (s.set k phase e engine)
  /-- The handle is not known. -/
  | unknown {k : C} : (setup.calls k).engine = none →
    Step s (.host k) (s.refuse setup k .invalidArgument)
  | queue {e : E} {event : EncodedEnvelope} : Step s (.queue e event)
    { s with engine := Function.update s.engine e { s.engine e with
      events := (s.engine e).events ++ [event], queued := (s.engine e).queued ++ [event] } }

end Turns

/-! ## Inversion -/

section Inversion

variable {E C : Type} [DecidableEq E] [DecidableEq C] {setup : Setup E C} {s s' : State E C}

theorem setPhase_eq {k : C} {phase : Phase} (e : E) :
    s.setPhase k phase = s.set k phase e (s.engine e) := by
  unfold State.setPhase State.set
  rw [Function.update_eq_self]

/-- A call goes on and leaves its engine as it is. -/
theorem Step.local {a : Action E C} {k : C} {e : E} {phase : Phase}
    (ha : a = .host k ∨ a = .expire k ∧ (setup.calls k).isPoll)
    (he : (setup.calls k).engine = some e) (ht : Turn setup s e k phase (s.engine e)) :
    Step setup s a (s.setPhase k phase) := by
  rw [setPhase_eq e]
  exact .turn ha he ht

/-- A call is refused before it has a slot. -/
theorem Step.refused {k : C} {code : LmResultCode} (hphase : s.phase k = .called)
    (hcode : (setup.calls k).engine = none → code = .invalidArgument)
    (hok : (setup.calls k).isOutput → code ≠ .ok) (hfull : code ≠ .resourceExhausted) :
    Step setup s (.host k) (s.refuse setup k code) := by
  cases he : (setup.calls k).engine with
  | none =>
    rw [hcode he]
    exact .unknown he
  | some e => exact .local (.inl rfl) he (.refuse (.inl hphase) hok fun h => absurd h hfull)

theorem outputStep_cases {k : C} {engine : Option E} {output : Option LmBuffer}
    (hphase : s.phase k = .called) (he : (setup.calls k).engine = engine)
    (hb : (setup.calls k).buffer = output) (ho : (setup.calls k).isOutput) :
    Step setup s (.host k) (outputStep setup s k engine output) := by
  unfold outputStep
  split
  · exact .refused hphase (fun _ => rfl) nofun nofun
  · exact .refused hphase (fun _ => rfl) nofun nofun
  · split
    · exact .refused hphase (fun _ => rfl) nofun nofun
    · rename_i hnull
      split
      · refine .refused hphase (fun h => ?_) nofun nofun
        rw [he] at h
        cases h
      · rw [not_not.mp hnull] at hb
        exact .local (.inl rfl) he (.enter hphase ho hb)

theorem freeStep_cases {k : C} {engine : Option E} {buffer : Option LmBuffer}
    (hphase : s.phase k = .called) (hk : setup.calls k = .bufferFree engine buffer) :
    Step setup s (.host k) (freeStep setup s k engine buffer) := by
  have hinvalid : Step setup s (.host k) (s.refuse setup k .invalidArgument) :=
    .refused hphase (fun _ => rfl) nofun nofun
  unfold freeStep
  split
  · exact hinvalid
  · exact hinvalid
  · rename_i buffer e
    have he : (setup.calls k).engine = some e := by rw [hk]; rfl
    split
    · split
      · refine .refused hphase (fun h => ?_) (fun h => ?_) nofun
        · rw [he] at h
          cases h
        · rw [hk] at h
          cases h
      · exact hinvalid
    · split
      · exact hinvalid
      · split
        · exact hinvalid
        · rename_i allocation hfind
          split
          · exact hinvalid
          · rename_i hsame
            have hid := LmEngine.find_id hfind
            have hd : allocation.descriptor = buffer := by
              simp only [not_or, not_not] at hsame
              unfold BufferAllocation.descriptor
              rw [hsame.1, hsame.2.1, hsame.2.2, hid]
            subst hd
            exact .turn (.inl rfl) he (.remove hphase hk (hid ▸ hfind))

theorem reserveStep_cases {k : C} {e : E} (hphase : s.phase k = .admitted)
    (he : (setup.calls k).engine = some e) : Step setup s (.host k) (reserveStep setup s k e) := by
  unfold reserveStep
  split
  · exact .local (.inl rfl) he (.refuse (.inr hphase) nofun fun _ => hphase)
  · rename_i hslots
    exact .turn (.inl rfl) he (.reserve hphase hslots)

theorem receiveStep_cases {k : C} {e : E} {timeoutMs : UInt32} (hphase : s.phase k = .receiving)
    (he : (setup.calls k).engine = some e) (hp : (setup.calls k).isPoll)
    (h : receiveStep s k e timeoutMs = some s') : Step setup s (.host k) s' := by
  unfold receiveStep at h
  split at h
  · rename_i hevents
    cases h
    exact .turn (.inl rfl) he (.take hphase hp hevents)
  · split at h <;> cases h
    exact .turn (.inl rfl) he (.miss (.inr hphase))

theorem writeStep_cases {k : C} {e : E} {bytes : ByteVec} (hphase : s.phase k = .writing bytes)
    (he : (setup.calls k).engine = some e) (h : writeStep s k e bytes = some s') :
    Step setup s (.host k) s' := by
  unfold writeStep at h
  split at h
  · rename_i hempty
    cases h
    exact .turn (.inl rfl) he (.writeEmpty hphase (by simpa using hempty))
  · rename_i hbytes
    obtain ⟨⟨id, next⟩, hid, rfl⟩ := Option.map_eq_some_iff.mp h
    exact .turn (.inl rfl) he (.write hphase (by simpa using hbytes) (FileLeases.allocate_new hid).2)

theorem engineStep_cases {k : C} {e : E} (he : (setup.calls k).engine = some e)
    (h : engineStep setup s k e = some s') : Step setup s (.host k) s' := by
  unfold engineStep at h
  split at h
  · rename_i hphase
    cases h
    exact reserveStep_cases hphase he
  · rename_i hphase hk
    have hp : (setup.calls k).isPoll = false := by
      rw [hk]
      rfl
    split at h <;> cases h
    · exact .turn (.inl rfl) he (.fail hphase hp)
    · exact .local (.inl rfl) he (.compile hphase hp)
  · rename_i hphase hk
    unfold lockStep at h
    split at h
    · cases h
      exact .turn (.inl rfl) he (.lock hphase)
    · split at h <;> cases h
      exact .local (.inl rfl) he (.miss (.inl hphase))
  · rename_i hphase hk
    exact receiveStep_cases hphase he (by rw [hk]; rfl) h
  · rename_i hphase
    exact writeStep_cases hphase he h
  · rename_i hphase
    cases h
    exact .turn (.inl rfl) he (.release hphase)
  · cases h

theorem hostStep_cases {k : C} (h : hostStep setup s k = some s') : Step setup s (.host k) s' := by
  unfold hostStep at h
  split at h
  · rename_i hphase hk
    cases h
    exact outputStep_cases hphase (by rw [hk]; rfl) (by rw [hk]; rfl) (by rw [hk]; rfl)
  · rename_i hphase hk
    cases h
    exact outputStep_cases hphase (by rw [hk]; rfl) (by rw [hk]; rfl) (by rw [hk]; rfl)
  · rename_i hphase hk
    cases h
    exact freeStep_cases hphase hk
  · rename_i hk
    cases h
    exact .unknown (by rw [hk]; rfl)
  · rename_i hphase hk
    cases h
    exact .turn (.inl rfl) (by rw [hk]; rfl) (.flag hphase (by rw [hk]; rfl))
  · obtain ⟨e, he, h⟩ := Option.bind_eq_some_iff.mp h
    exact engineStep_cases he h

theorem expireStep_cases {k : C} (h : expireStep setup s k = some s') :
    Step setup s (.expire k) s' := by
  unfold expireStep at h
  split at h
  · rename_i hphase hk
    have hp : (setup.calls k).isPoll := by
      rw [hk]
      rfl
    split at h <;> cases h
    exact .local (.inr ⟨rfl, hp⟩) (by rw [hk]; rfl) (.miss (.inl hphase))
  · rename_i hphase hk
    have hp : (setup.calls k).isPoll := by
      rw [hk]
      rfl
    split at h <;> cases h
    exact .turn (.inr ⟨rfl, hp⟩) (by rw [hk]; rfl) (.miss (.inr hphase))
  · cases h

theorem step_cases {a : Action E C} (h : step setup s a = some s') : Step setup s a s' := by
  cases a with
  | host k => exact hostStep_cases h
  | expire k => exact expireStep_cases h
  | queue e event =>
    have h : queueStep s e event = some s' := h
    unfold queueStep at h
    split at h <;> cases h
    exact .queue

end Inversion

/-! ## What a call changes -/

section Turn

variable {E C : Type} {setup : Setup E C} {s : State E C} {e : E} {k : C} {phase : Phase}
  {engine : LmEngine C}

theorem turn_unreturned (ht : Turn setup s e k phase engine) {code : LmResultCode}
    {buffer : Option LmBuffer} : s.phase k ≠ .returned code buffer := by
  cases ht with
  | refuse h => rcases h with h | h <;> exact h ▸ nofun
  | miss h => rcases h with h | h <;> exact h ▸ nofun
  | enter h | reserve h | fail h | compile h | lock h | take h => exact h ▸ nofun
  | writeEmpty h | write h | remove h | release h | flag h => exact h ▸ nofun

/-- A slot that a call gains or loses comes from the semaphore or an allocation, or goes there. -/
theorem turn_balance (hids : ((s.engine e).allocations.map (·.id)).Nodup)
    (ht : Turn setup s e k phase engine) :
    engine.allocations.length + engine.bufferSlots + phase.holdsSlot.toNat =
      (s.engine e).allocations.length + (s.engine e).bufferSlots + (s.phase k).holdsSlot.toNat := by
  cases ht with
  | refuse h => rcases h with h | h <;> rw [h] <;> rfl
  | miss h => rcases h with h | h <;> rw [h] <;> rfl
  | enter h | compile h | lock h | take h | flag h => rw [h]; rfl
  | reserve h hslots =>
    rw [h, hslots]
    rfl
  | fail h | writeEmpty h | release h =>
    rw [h]
    show (s.engine e).allocations.length + ((s.engine e).bufferSlots + 1) + 0 =
      (s.engine e).allocations.length + (s.engine e).bufferSlots + 1
    omega
  | write h =>
    rw [h]
    show (_ ++ [_]).length + (s.engine e).bufferSlots + 0 = _ + _ + 1
    rw [List.length_append, List.length_singleton]
    omega
  | remove h _ hfind =>
    rw [h, (LmEngine.allocations_perm hids hfind).length_eq, List.length_cons]
    show (List.filter _ _).length + (s.engine e).bufferSlots + 1 = _ + 1 + _ + 0
    omega

theorem ids_turn (hids : ((s.engine e).allocations.map (·.id)).Nodup)
    (ht : Turn setup s e k phase engine) : (engine.allocations.map (·.id)).Nodup := by
  cases ht with
  | write _ _ hnew =>
    show ((_ ++ [_]).map _).Nodup
    rw [List.map_append, List.map_singleton, List.nodup_append]
    refine ⟨hids, List.nodup_singleton _, fun a ha b hb => ?_⟩
    rw [List.mem_singleton.mp hb]
    rintro rfl
    rw [LmEngine.find_isSome.mpr ha] at hnew
    cases hnew
  | remove => exact hids.sublist (List.filter_sublist.map _)
  | _ => exact hids

/-- The allocations ever made, with the one that the call makes. -/
theorem registered_turn (hids : ((s.engine e).allocations.map (·.id)).Nodup)
    (ht : Turn setup s e k phase engine) :
    (s.engine e).registered.Perm engine.registered ∨
      ∃ allocation : BufferAllocation C, allocation.owner = k ∧
        s.phase k = .writing allocation.bytes ∧
        phase = .returned .ok (some allocation.descriptor) ∧
        (allocation :: (s.engine e).registered).Perm engine.registered := by
  cases ht with
  | @write bytes id next h =>
    refine .inr ⟨⟨id, bytes, k⟩, rfl, h, rfl, ?_⟩
    unfold LmEngine.registered LmEngine.register
    exact ((List.perm_append_singleton _ _).symm.append_right _)
  | remove _ _ hfind => exact .inl (LmEngine.registered_remove hids hfind)
  | _ => exact .inl (.refl _)

/-- Only a poll that has the receiver takes an event. -/
theorem taken_turn (ht : Turn setup s e k phase engine) : engine.taken = (s.engine e).taken ∨
    ∃ event, s.phase k = .receiving ∧ (setup.calls k).isPoll ∧
      phase = .writing event.toByteVec ∧ engine.taken = (s.engine e).taken ++ [(k, event)] ∧
      (s.engine e).events = event :: engine.events ∧ engine.queued = (s.engine e).queued := by
  cases ht with
  | take h hp hevents => exact .inr ⟨_, h, hp, rfl, rfl, hevents, rfl⟩
  | _ => exact .inl rfl

theorem events_turn (ht : Turn setup s e k phase engine) (htaken : engine.taken = (s.engine e).taken) :
    engine.events = (s.engine e).events ∧ engine.queued = (s.engine e).queued := by
  cases ht with
  | take => simp at htaken
  | _ => exact ⟨rfl, rfl⟩

end Turn

/-! ## The invariant -/

theorem Call.isOutput_of_isPoll {E : Type} {call : Call E} (h : call.isPoll) : call.isOutput := by
  cases call <;> first | rfl | cases h

section Sound

variable {E C : Type}

/-- The call works on the engine and holds a slot of it. -/
def State.Holds (setup : Setup E C) (s : State E C) (e : E) (k : C) : Prop :=
  (setup.calls k).engine = some e ∧ (s.phase k).holdsSlot

/-- The slots are with allocations, with calls, or free. -/
def State.Accounted (setup : Setup E C) (s : State E C) (e : E) : Prop :=
  ∃ holders : Finset C, (∀ k, k ∈ holders ↔ s.Holds setup e k) ∧
    (s.engine e).allocations.length + (s.engine e).bufferSlots + holders.card =
      maxOutstandingBuffers

/-- The call has not taken an event, and has nothing to return. -/
def Phase.isBefore : Phase → Bool
  | .called | .admitted | .reserved | .receiving => true
  | _ => false

/-- A call in this phase has taken these events from the channel. -/
inductive Record (registered : List (BufferAllocation C)) (call : Call E) (k : C) :
    Phase → List EncodedEnvelope → Prop where
  | before {phase : Phase} : phase.isBefore → Record registered call k phase []
  | empty {bytes : ByteVec} : bytes.bytes = [] → Record registered call k (.writing bytes) []
  | event (event : EncodedEnvelope) : Record registered call k (.writing event.toByteVec) [event]
  | other {phase : Phase} : call.isPoll = false → Record registered call k phase []
  | refused {code : LmResultCode} {buffer : Option LmBuffer} : code ≠ .ok →
    Record registered call k (.returned code buffer) []
  | nothing : Record registered call k (.returned .ok (some .null)) []
  | delivered {event : EncodedEnvelope} {allocation : BufferAllocation C} :
    allocation ∈ registered → allocation.owner = k → allocation.bytes = event.toByteVec →
    Record registered call k (.returned .ok (some allocation.descriptor)) [event]

theorem Record.mono {registered registered' : List (BufferAllocation C)} {call : Call E} {k : C}
    {phase : Phase} {taken : List EncodedEnvelope} (h : Record registered call k phase taken)
    (hsub : registered ⊆ registered') : Record registered' call k phase taken := by
  cases h with
  | before hb => exact .before hb
  | empty hbytes => exact .empty hbytes
  | event event => exact .event event
  | other hp => exact .other hp
  | refused hcode => exact .refused hcode
  | nothing => exact .nothing
  | delivered ha hk hbytes => exact .delivered (hsub ha) hk hbytes

theorem Record.taken_nil {registered : List (BufferAllocation C)} {call : Call E} {k : C}
    {phase : Phase} {taken : List EncodedEnvelope} (h : Record registered call k phase taken)
    (hb : phase.isBefore) : taken = [] := by
  cases h with
  | event => cases hb
  | delivered => cases hb
  | _ => rfl

theorem EncodedEnvelope.bytes_ne (envelope : EncodedEnvelope) : envelope.bytes ≠ [] := by
  intro hempty
  have hversion := envelope.versioned
  rw [hempty] at hversion
  cases List.prefix_nil.mp hversion

variable [DecidableEq C]

/-- The events that a call has taken. -/
def LmEngine.takenBy (engine : LmEngine C) (k : C) : List EncodedEnvelope :=
  (engine.taken.filter (·.1 = k)).map Prod.snd

/-- What holds of an engine and of the calls on it. -/
structure Sound (setup : Setup E C) (s : State E C) (e : E) : Prop where
  ids : ((s.engine e).allocations.map (·.id)).Nodup
  accounted : s.Accounted setup e
  queued : (s.engine e).queued = (s.engine e).taken.map Prod.snd ++ (s.engine e).events
  pollers : ∀ entry ∈ (s.engine e).taken,
    (setup.calls entry.1).engine = some e ∧ (setup.calls entry.1).isPoll
  pollOnce : ((s.engine e).taken.map Prod.fst).Nodup
  record : ∀ k, (setup.calls k).engine = some e →
    Record (s.engine e).registered (setup.calls k) k (s.phase k) ((s.engine e).takenBy k)
  admitted : ∀ k, (setup.calls k).engine = some e → s.phase k = .admitted →
    (setup.calls k).buffer = some .null
  exhausted : ∀ k buffer, (setup.calls k).engine = some e →
    s.phase k = .returned .resourceExhausted buffer → buffer = some .null
  owners : ∀ allocation ∈ (s.engine e).registered, (setup.calls allocation.owner).engine = some e ∧
    s.phase allocation.owner = .returned .ok (some allocation.descriptor)
  once : ((s.engine e).registered.map (·.owner)).Nodup
  freed : ∀ entry ∈ (s.engine e).freed,
    setup.calls entry.1 = .bufferFree (some e) (some entry.2.descriptor)

theorem sound_initial (setup : Setup E C) (e : E) : Sound setup (initial E C) e where
  ids := .nil
  accounted := ⟨∅, fun _ => ⟨nofun, fun h => nomatch h.2⟩, rfl⟩
  queued := rfl
  pollers := nofun
  pollOnce := .nil
  record _ _ := .before rfl
  admitted := nofun
  exhausted := nofun
  owners := nofun
  once := .nil
  freed := nofun

variable {setup : Setup E C} {s s' : State E C} {e : E}

/-- A step elsewhere, or one that only queues an event. -/
theorem Sound.along (h : Sound setup s e)
    (hallocations : (s'.engine e).allocations = (s.engine e).allocations)
    (hslots : (s'.engine e).bufferSlots = (s.engine e).bufferSlots)
    (htaken : (s'.engine e).taken = (s.engine e).taken)
    (hfreed : (s'.engine e).freed = (s.engine e).freed)
    (hqueued : (s'.engine e).queued = (s.engine e).taken.map Prod.snd ++ (s'.engine e).events)
    (hphase : ∀ k, (setup.calls k).engine = some e → s'.phase k = s.phase k) : Sound setup s' e := by
  have hregistered : (s'.engine e).registered = (s.engine e).registered := by
    unfold LmEngine.registered
    rw [hallocations, hfreed]
  exact {
    ids := hallocations ▸ h.ids
    accounted := by
      obtain ⟨holders, hmem, hcount⟩ := h.accounted
      refine ⟨holders, fun k => (hmem k).trans ?_, by rw [hallocations, hslots, hcount]⟩
      exact and_congr_right fun hk => by rw [hphase k hk]
    queued := htaken ▸ hqueued
    pollers := htaken ▸ h.pollers
    pollOnce := htaken ▸ h.pollOnce
    record := fun k hk => by
      unfold LmEngine.takenBy
      rw [hregistered, hphase k hk, htaken]
      exact h.record k hk
    admitted := fun k hk ht => h.admitted k hk (hphase k hk ▸ ht)
    exhausted := fun k buffer hk ht => h.exhausted k buffer hk (hphase k hk ▸ ht)
    owners := fun allocation ha => by
      obtain ⟨ho, hp⟩ := h.owners allocation (hregistered ▸ ha)
      exact ⟨ho, (hphase _ ho).trans hp⟩
    once := hregistered ▸ h.once
    freed := hfreed ▸ h.freed }

section Turn

variable [DecidableEq E] {k : C} {phase : Phase} {engine : LmEngine C}

@[simp] theorem set_engine : (s.set k phase e engine).engine e = engine := Function.update_self ..

theorem set_engine_other {e' : E} (he : e' ≠ e) :
    (s.set k phase e engine).engine e' = s.engine e' := Function.update_of_ne he ..

@[simp] theorem set_phase : (s.set k phase e engine).phase = Function.update s.phase k phase := rfl

/-- The calls that hold a slot after a call has gone on. -/
theorem holders_set {holders : Finset C} (hmem : ∀ k, k ∈ holders ↔ s.Holds setup e k)
    (he : (setup.calls k).engine = some e) : ∃ holders' : Finset C,
    (∀ k', k' ∈ holders' ↔ (s.set k phase e engine).Holds setup e k') ∧
      holders'.card + (s.phase k).holdsSlot.toNat = holders.card + phase.holdsSlot.toNat := by
  have hself : (s.set k phase e engine).Holds setup e k ↔ phase.holdsSlot := by
    unfold State.Holds
    rw [set_phase, Function.update_self]
    exact and_iff_right he
  have hother : ∀ {k'}, k' ≠ k → ((s.set k phase e engine).Holds setup e k' ↔ k' ∈ holders) := by
    intro k' hne
    rw [hmem]
    unfold State.Holds
    rw [set_phase, Function.update_of_ne hne]
  have hcard : (holders.erase k).card + (s.phase k).holdsSlot.toNat = holders.card := by
    cases hp : (s.phase k).holdsSlot with
    | true => exact Finset.card_erase_add_one ((hmem k).mpr ⟨he, hp⟩)
    | false =>
      rw [Finset.erase_eq_of_notMem fun hk => ?_]
      · rfl
      · have := ((hmem k).mp hk).2
        rw [hp] at this
        cases this
  cases hq : phase.holdsSlot with
  | true =>
    refine ⟨insert k (holders.erase k), fun k' => ?_, ?_⟩
    · rw [Finset.mem_insert, Finset.mem_erase]
      by_cases hk : k' = k
      · subst hk
        rw [hself, hq]
        simp
      · rw [hother hk]
        simp [hk]
    · rw [Finset.card_insert_of_notMem (Finset.notMem_erase k holders)]
      show _ = holders.card + 1
      omega
  | false =>
    refine ⟨holders.erase k, fun k' => ?_, hcard⟩
    rw [Finset.mem_erase]
    by_cases hk : k' = k
    · subst hk
      rw [hself, hq]
      simp
    · rw [hother hk]
      simp [hk]

theorem accounted_turn (h : Sound setup s e) (he : (setup.calls k).engine = some e)
    (ht : Turn setup s e k phase engine) : (s.set k phase e engine).Accounted setup e := by
  obtain ⟨holders, hmem, hcount⟩ := h.accounted
  obtain ⟨holders', hmem', hcard⟩ : ∃ holders' : Finset C,
      (∀ k', k' ∈ holders' ↔ (s.set k phase e engine).Holds setup e k') ∧
        holders'.card + (s.phase k).holdsSlot.toNat = holders.card + phase.holdsSlot.toNat :=
    holders_set hmem he
  refine ⟨holders', hmem', ?_⟩
  have := turn_balance h.ids ht
  rw [set_engine]
  omega

omit [DecidableEq E] in
theorem takenBy_append {event : EncodedEnvelope} {k' : C} {t : LmEngine C}
    (ht : t.taken = (s.engine e).taken ++ [(k, event)]) :
    t.takenBy k' = (s.engine e).takenBy k' ++ if k' = k then [event] else [] := by
  unfold LmEngine.takenBy
  rw [ht]
  by_cases hk : k' = k
  · subst hk
    simp
  · simp [hk, Ne.symm hk]

omit [DecidableEq E] in
theorem record_turn (h : Sound setup s e) (he : (setup.calls k).engine = some e)
    (ht : Turn setup s e k phase engine) :
    Record engine.registered (setup.calls k) k phase (engine.takenBy k) := by
  have hrecord := h.record k he
  have hnone : (s.phase k).isBefore → (s.engine e).takenBy k = [] := hrecord.taken_nil
  -- a call that takes nothing has the record that it had
  have hsame : engine.taken = (s.engine e).taken →
      engine.takenBy k = (s.engine e).takenBy k := fun htaken => by
    unfold LmEngine.takenBy
    rw [htaken]
  have hbefore (htaken : engine.taken = (s.engine e).taken) (hb : (s.phase k).isBefore)
      (hr : Record engine.registered (setup.calls k) k phase []) :
      Record engine.registered (setup.calls k) k phase (engine.takenBy k) := by
    rw [hsame htaken, hnone hb]
    exact hr
  cases ht with
  | refuse hphase hok =>
    refine hbefore rfl (by rcases hphase with hp | hp <;> rw [hp] <;> rfl) ?_
    cases hp : (setup.calls k).isPoll with
    | true => exact .refused (hok (Call.isOutput_of_isPoll hp))
    | false => exact .other hp
  | enter hp | reserve hp | lock hp => exact hbefore rfl (by rw [hp]; rfl) (.before rfl)
  | fail hp hpoll | compile hp hpoll => exact hbefore rfl (by rw [hp]; rfl) (.other hpoll)
  | miss hphase =>
    exact hbefore rfl (by rcases hphase with hp | hp <;> rw [hp] <;> rfl) (.empty rfl)
  | take hp =>
    rw [takenBy_append rfl, hnone (by rw [hp]; rfl), if_pos rfl]
    exact .event _
  | writeEmpty hp hbytes =>
    rw [hsame rfl]
    rw [hp] at hrecord
    generalize (s.engine e).takenBy k = taken at hrecord ⊢
    cases hrecord with
    | before hb => cases hb
    | empty => exact .nothing
    | event event => exact absurd hbytes event.bytes_ne
    | other => exact .nothing
  | write hp hbytes =>
    rw [hsame rfl]
    rw [hp] at hrecord
    generalize (s.engine e).takenBy k = taken at hrecord ⊢
    cases hrecord with
    | before hb => cases hb
    | empty hempty => exact absurd hempty hbytes
    | event event =>
      refine .delivered (List.mem_append_left _ ?_) rfl rfl
      exact List.mem_append_right _ (List.mem_singleton_self _)
    | other hpoll => exact .other hpoll
  | remove hp hcall =>
    refine hbefore rfl (by rw [hp]; rfl) ?_
    rw [hcall]
    exact .other rfl
  | release hp =>
    rw [hsame rfl]
    rw [hp] at hrecord
    generalize (s.engine e).takenBy k = taken at hrecord ⊢
    cases hrecord with
    | before hb => cases hb
    | other => exact .nothing
  | flag hp hout =>
    refine hbefore rfl (by rw [hp]; rfl) (.other ?_)
    by_contra hpoll
    rw [Call.isOutput_of_isPoll (by simpa using hpoll)] at hout
    cases hout

theorem set_phase_self : (s.set k phase e engine).phase k = phase := Function.update_self ..

theorem set_phase_other {k' : C} (hk : k' ≠ k) : (s.set k phase e engine).phase k' = s.phase k' :=
  Function.update_of_ne hk ..

omit [DecidableEq E] in
theorem registered_mono (h : Sound setup s e) (ht : Turn setup s e k phase engine) :
    (s.engine e).registered ⊆ engine.registered := by
  intro a ha
  rcases registered_turn h.ids ht with hperm | ⟨_, -, -, -, hperm⟩
  · exact hperm.subset ha
  · exact hperm.subset (List.mem_cons_of_mem _ ha)

theorem sound_turn (h : Sound setup s e) (he : (setup.calls k).engine = some e)
    (ht : Turn setup s e k phase engine) : Sound setup (s.set k phase e engine) e where
  ids := by
    rw [set_engine]
    exact ids_turn h.ids ht
  accounted := accounted_turn h he ht
  queued := by
    rw [set_engine]
    rcases taken_turn ht with htaken | ⟨event, -, -, -, htaken, hevents, hqueued⟩
    · obtain ⟨hevents, hqueued⟩ := events_turn ht htaken
      rw [htaken, hevents, hqueued]
      exact h.queued
    · rw [htaken, hqueued, h.queued, hevents, List.map_append, List.append_assoc]
      rfl
  pollers entry hentry := by
    rw [set_engine] at hentry
    rcases taken_turn ht with htaken | ⟨event, -, hpoll, -, htaken, -, -⟩
    · exact h.pollers entry (htaken ▸ hentry)
    · rw [htaken] at hentry
      rcases List.mem_append.mp hentry with hentry | hentry
      · exact h.pollers entry hentry
      · rw [List.mem_singleton.mp hentry]
        exact ⟨he, hpoll⟩
  pollOnce := by
    rw [set_engine]
    rcases taken_turn ht with htaken | ⟨event, hphase, -, -, htaken, -, -⟩
    · exact htaken ▸ h.pollOnce
    · have hnone := (h.record k he).taken_nil (by rw [hphase]; rfl)
      rw [htaken, List.map_append, List.map_singleton, List.nodup_append]
      refine ⟨h.pollOnce, List.nodup_singleton _, ?_⟩
      rintro _ hk _ hk' rfl
      rw [List.mem_singleton.mp hk'] at hk
      obtain ⟨entry, hentry, hfst⟩ := List.mem_map.mp hk
      have : entry.2 ∈ (s.engine e).takenBy k :=
        List.mem_map_of_mem (List.mem_filter.mpr ⟨hentry, by simpa using hfst⟩)
      rw [hnone] at this
      cases this
  record k' hk' := by
    rw [set_engine]
    by_cases hk : k' = k
    · rw [hk, set_phase_self]
      exact record_turn h he ht
    · have htaken : engine.takenBy k' = (s.engine e).takenBy k' := by
        rcases taken_turn ht with htaken | ⟨event, -, -, -, htaken, -, -⟩
        · unfold LmEngine.takenBy
          rw [htaken]
        · rw [takenBy_append htaken, if_neg hk, List.append_nil]
      rw [set_phase_other hk, htaken]
      exact (h.record k' hk').mono (registered_mono h ht)
  admitted k' hk' hphase := by
    by_cases hk : k' = k
    · subst hk
      rw [set_phase_self] at hphase
      subst hphase
      cases ht with
      | enter _ _ hb => exact hb
    · rw [set_phase_other hk] at hphase
      exact h.admitted k' hk' hphase
  exhausted k' buffer hk' hphase := by
    by_cases hk : k' = k
    · subst hk
      rw [set_phase_self] at hphase
      cases ht with
      | refuse _ _ hfull =>
        cases hphase
        exact h.admitted k' he (hfull rfl)
      | _ => cases hphase
    · rw [set_phase_other hk] at hphase
      exact h.exhausted k' buffer hk' hphase
  owners allocation ha := by
    rw [set_engine] at ha
    have hold : ∀ a ∈ (s.engine e).registered, (setup.calls a.owner).engine = some e ∧
        (s.set k phase e engine).phase a.owner = .returned .ok (some a.descriptor) := by
      intro a ha
      obtain ⟨ho, hreturned⟩ := h.owners a ha
      have hne : a.owner ≠ k := fun hk => turn_unreturned ht (hk ▸ hreturned)
      exact ⟨ho, (set_phase_other hne).trans hreturned⟩
    rcases registered_turn h.ids ht with hperm | ⟨new, hk, -, hphase, hperm⟩
    · exact hold allocation (hperm.mem_iff.mpr ha)
    · rcases List.mem_cons.mp (hperm.mem_iff.mpr ha) with rfl | ha
      · exact ⟨hk ▸ he, by rw [hk, set_phase_self, hphase]⟩
      · exact hold allocation ha
  once := by
    rw [set_engine]
    rcases registered_turn h.ids ht with hperm | ⟨new, hk, -, -, hperm⟩
    · exact (hperm.map _).nodup_iff.mp h.once
    · refine (hperm.map _).nodup_iff.mp (List.nodup_cons.mpr ⟨fun hmem => ?_, h.once⟩)
      obtain ⟨a, ha, hsame⟩ := List.mem_map.mp hmem
      exact turn_unreturned ht ((hsame.trans hk) ▸ (h.owners a ha).2)
  freed entry hentry := by
    rw [set_engine] at hentry
    cases ht with
    | remove _ hcall =>
      rcases List.mem_append.mp hentry with hentry | hentry
      · exact h.freed entry hentry
      · rw [List.mem_singleton.mp hentry]
        exact hcall
    | _ => exact h.freed entry hentry

omit [DecidableEq E] in
theorem Sound.elsewhere (h : Sound setup s e) (hengine : s'.engine e = s.engine e)
    (hk : (setup.calls k).engine ≠ some e)
    (hphase : s'.phase = Function.update s.phase k phase) : Sound setup s' e := by
  refine h.along ?_ ?_ ?_ ?_ ?_ fun k' hk' => ?_
  · rw [hengine]
  · rw [hengine]
  · rw [hengine]
  · rw [hengine]
  · rw [hengine]
    exact h.queued
  · rw [hphase, Function.update_of_ne]
    rintro rfl
    exact hk hk'

/-- Every step keeps every engine sound. -/
theorem sound_step {a : Action E C} (h : ∀ e, Sound setup s e) (hs : Step setup s a s') (e : E) :
    Sound setup s' e := by
  cases hs with
  | @turn _ k e' phase engine _ he ht =>
    by_cases hee : e = e'
    · subst hee
      exact sound_turn (h e) he ht
    · refine (h e).elsewhere (Function.update_of_ne hee ..) (fun he' => hee ?_) rfl
      exact Option.some.inj (he'.symm.trans he)
  | unknown he =>
    refine (h e).elsewhere rfl (fun he' => ?_) rfl
    exact nomatch he.symm.trans he'
  | @queue e' event =>
    by_cases hee : e = e'
    · subst hee
      refine (h e).along ?_ ?_ ?_ ?_ ?_ fun _ _ => rfl
      all_goals simp only [Function.update_self]
      rw [(h e).queued, List.append_assoc]
    · have hengine : ∀ {engine : LmEngine C}, Function.update s.engine e' engine e = s.engine e :=
        Function.update_of_ne hee ..
      refine (h e).along ?_ ?_ ?_ ?_ ?_ fun _ _ => rfl
      all_goals simp only [hengine]
      exact (h e).queued

theorem sound_reach {ok : State E C → Action E C → Prop}
    (h : Reach (step setup) ok (initial E C) s) (e : E) : Sound setup s e :=
  h.invariant (I := fun s => ∀ e, Sound setup s e) (fun e => sound_initial setup e)
    (fun _ _ _ ht _ hs => sound_step ht (step_cases hs)) e

/-- A call whose handle is not known does nothing. -/
theorem unknown_reach {ok : State E C → Action E C → Prop}
    (h : Reach (step setup) ok (initial E C) s) (he : (setup.calls k).engine = none) :
    s.phase k = .called ∨ s.phase k = .returned .invalidArgument (setup.calls k).buffer := by
  refine h.invariant (I := fun s => s.phase k = .called ∨
    s.phase k = .returned .invalidArgument (setup.calls k).buffer) (.inl rfl) fun t a t' ht _ hs => ?_
  cases step_cases hs with
  | turn _ he' =>
    rw [set_phase_other]
    · exact ht
    · rintro rfl
      exact nomatch he.symm.trans he'
  | @unknown k' =>
    show Function.update t.phase k' _ k = _ ∨ Function.update t.phase k' _ k = _
    by_cases hk : k = k'
    · subst hk
      rw [Function.update_self]
      exact .inr rfl
    · rw [Function.update_of_ne hk]
      exact ht
  | queue => exact ht

end Turn

/-! ## Runs -/

variable [DecidableEq E] {k : C}

/-- A call with something to write has a slot, so it finds an identifier. -/
theorem write_ends (h : Sound setup s e) (he : (setup.calls k).engine = some e) {bytes : ByteVec}
    (hphase : s.phase k = .writing bytes) (hbytes : bytes.bytes ≠ []) :
    ∃ id next, step setup s (.host k) =
      some (s.set k (.returned .ok (some (BufferAllocation.descriptor ⟨id, bytes, k⟩))) e
        ((s.engine e).register k bytes id next)) := by
  have hstep : step setup s (.host k) = writeStep s k e bytes := by
    show hostStep setup s k = _
    simp only [hostStep, engineStep, hphase, he, Option.bind_some]
  have hends : (FileLeases.allocate (fun id => ((s.engine e).find id).isSome)
      (s.engine e).nextBufferAllocationId (maxOutstandingBuffers + 2)).isSome := by
    obtain ⟨holders, hmem, hcount⟩ := h.accounted
    have hpos := Finset.card_pos.mpr ⟨k, (hmem k).mpr ⟨he, by rw [hphase]; rfl⟩⟩
    unfold maxOutstandingBuffers at *
    refine FileLeases.allocate_ends (fun id hid => LmEngine.find_isSome.mp hid) ?_ ?_
    · rw [List.length_map]
      omega
    · omega
  obtain ⟨⟨id, next⟩, hid⟩ := Option.isSome_iff_exists.mp hends
  refine ⟨id, next, ?_⟩
  rw [hstep]
  unfold writeStep
  rw [if_neg (by simpa using hbytes)]
  simp only [hid, Option.map_some]

/-- What the host has got and given back, in a state. -/
structure Delivered (setup : Setup E C) (s : State E C) : Prop where
  /-- The events taken are the first ones queued. -/
  inOrder : ∀ e, (s.engine e).taken.map Prod.snd <+: (s.engine e).queued
  pollOnce : ∀ e, ((s.engine e).taken.map Prod.fst).Nodup
  /-- The poll that took an event returns it with `Ok`; if it has not yet, its next step does. -/
  returned : ∀ e k event, (k, event) ∈ (s.engine e).taken →
    (setup.calls k).engine = some e ∧ (setup.calls k).isPoll ∧
    ∃ t allocation, (t = s ∨ step setup s (.host k) = some t) ∧
      allocation ∈ (t.engine e).registered ∧ allocation.owner = k ∧
      allocation.bytes = event.toByteVec ∧ t.phase k = .returned .ok (some allocation.descriptor)
  /-- A poll returns nothing but an event it took. -/
  nothingElse : ∀ k buffer, (setup.calls k).isPoll → s.phase k = .returned .ok (some buffer) →
    buffer ≠ .null → ∃ e event, (k, event) ∈ (s.engine e).taken
  exhausted : ∀ k buffer, s.phase k = .returned .resourceExhausted buffer →
    buffer = some .null ∧ ∀ e event, (k, event) ∉ (s.engine e).taken
  accounted : ∀ e, s.Accounted setup e
  freedOnce : ∀ e, ((s.engine e).freed.map (·.2.owner)).Nodup
  /-- A freed allocation was freed by its own descriptor, and is in the map no more. -/
  freedBy : ∀ e k allocation, (k, allocation) ∈ (s.engine e).freed →
    setup.calls k = .bufferFree (some e) (some allocation.descriptor) ∧
    allocation ∉ (s.engine e).allocations
  /-- An allocation leaves the map only by being freed. -/
  kept : ∀ a s' e allocation, step setup s a = some s' → allocation ∈ (s.engine e).allocations →
    allocation ∈ (s'.engine e).allocations ∨
      ∃ k, a = .host k ∧ (s'.engine e).freed = (s.engine e).freed ++ [(k, allocation)]

theorem taken_mem {event : EncodedEnvelope} {engine : LmEngine C} (h : (k, event) ∈ engine.taken) :
    event ∈ engine.takenBy k :=
  List.mem_map_of_mem (f := Prod.snd) (List.mem_filter.mpr ⟨h, by simp⟩)

theorem mem_of_takenBy {event : EncodedEnvelope} {engine : LmEngine C}
    (h : event ∈ engine.takenBy k) : (k, event) ∈ engine.taken := by
  obtain ⟨⟨k', event'⟩, hentry, rfl⟩ := List.mem_map.mp h
  obtain ⟨htaken, hk⟩ := List.mem_filter.mp hentry
  cases of_decide_eq_true hk
  exact htaken

/-- The poll that took an event is about to return it, or has. -/
theorem returned_of_sound (h : Sound setup s e) {event : EncodedEnvelope}
    (htaken : (k, event) ∈ (s.engine e).taken) :
    ∃ t allocation, (t = s ∨ step setup s (.host k) = some t) ∧
      allocation ∈ (t.engine e).registered ∧ allocation.owner = k ∧
      allocation.bytes = event.toByteVec ∧
      t.phase k = .returned .ok (some allocation.descriptor) := by
  have he := (h.pollers _ htaken).1
  have hmem := taken_mem htaken
  have hrecord := h.record k he
  generalize hp : s.phase k = phase at hrecord
  generalize (s.engine e).takenBy k = taken at hrecord hmem
  cases hrecord with
  | event event' =>
    cases List.mem_singleton.mp hmem
    obtain ⟨id, next, hstep⟩ := write_ends h he hp event.bytes_ne
    refine ⟨_, ⟨id, event.toByteVec, k⟩, .inr hstep, ?_, rfl, rfl, set_phase_self⟩
    rw [set_engine]
    exact List.mem_append_left _ (List.mem_append_right _ (List.mem_singleton_self _))
  | @delivered event' allocation ha hk hbytes =>
    cases List.mem_singleton.mp hmem
    exact ⟨s, allocation, .inl rfl, ha, hk, hbytes, hp⟩
  | _ => cases hmem

/-- An allocation leaves the map only by being freed. -/
theorem kept_of_sound {a : Action E C} (h : Sound setup s e) (hs : Step setup s a s')
    {allocation : BufferAllocation C} (ha : allocation ∈ (s.engine e).allocations) :
    allocation ∈ (s'.engine e).allocations ∨
      ∃ k, a = .host k ∧ (s'.engine e).freed = (s.engine e).freed ++ [(k, allocation)] := by
  cases hs with
  | @turn _ k e' phase engine hact _ ht =>
    by_cases hee : e = e'
    · subst hee
      rw [set_engine]
      cases ht with
      | write => exact .inl (List.mem_append_left _ ha)
      | @remove freed _ hcall hfind =>
        rcases List.mem_cons.mp ((LmEngine.allocations_perm h.ids hfind).mem_iff.mp ha) with rfl | ha
        · refine .inr ⟨k, hact.resolve_right fun hexpire => ?_, rfl⟩
          rw [hcall] at hexpire
          cases hexpire.2
        · exact .inl ha
      | _ => exact .inl ha
    · rw [set_engine_other hee]
      exact .inl ha
  | unknown => exact .inl ha
  | @queue e' event =>
    by_cases hee : e = e'
    · subst hee
      refine .inl ?_
      simp only [Function.update_self]
      exact ha
    · simp only [Function.update_of_ne hee]
      exact .inl ha

/-- In every state of every run the events and the buffers are where they belong. -/
theorem buffers_delivered (h : Reach (step setup) (fun _ _ => True) (initial E C) s) :
    Delivered setup s := by
  have hsound := sound_reach h
  have hunknown := fun k => unknown_reach (k := k) h
  have hfreed : ∀ e entry, entry ∈ (s.engine e).freed → entry.2 ∉ (s.engine e).allocations := by
    intro e entry hentry ha
    have honce := (hsound e).once
    unfold LmEngine.registered at honce
    rw [List.map_append] at honce
    exact (List.nodup_append.mp honce).2.2 _ (List.mem_map_of_mem ha) _
      (List.mem_map_of_mem (List.mem_map_of_mem hentry)) rfl
  refine ⟨fun e => ?_, fun e => (hsound e).pollOnce, fun e k event htaken => ?_,
    fun k buffer hpoll hphase hne => ?_, fun k buffer hphase => ?_, fun e => (hsound e).accounted,
    fun e => ?_, fun e k allocation hentry => ?_, fun a s' e allocation hs ha => ?_⟩
  · rw [(hsound e).queued]
    exact List.prefix_append ..
  · obtain ⟨he, hpoll⟩ := (hsound e).pollers _ htaken
    exact ⟨he, hpoll, returned_of_sound (hsound e) htaken⟩
  · cases he : (setup.calls k).engine with
    | none =>
      rcases hunknown k he with hk | hk <;> exact nomatch hphase.symm.trans hk
    | some e =>
      have hrecord := (hsound e).record k he
      rw [hphase] at hrecord
      generalize htaken : (s.engine e).takenBy k = taken at hrecord
      cases hrecord with
      | before hb => cases hb
      | other hother => exact nomatch hpoll.symm.trans hother
      | refused hcode => exact absurd rfl hcode
      | nothing => exact absurd rfl hne
      | @delivered event => exact ⟨e, event, mem_of_takenBy (htaken ▸ List.mem_singleton_self _)⟩
  · cases he : (setup.calls k).engine with
    | none =>
      rcases hunknown k he with hk | hk <;> exact nomatch hphase.symm.trans hk
    | some e =>
      refine ⟨(hsound e).exhausted k buffer he hphase, fun e' event htaken => ?_⟩
      cases he.symm.trans ((hsound e').pollers _ htaken).1
      have hrecord := (hsound e).record k he
      have hmem := taken_mem htaken
      rw [hphase] at hrecord
      generalize (s.engine e).takenBy k = taken at hrecord hmem
      cases hrecord <;> cases hmem
  · have honce := (hsound e).once
    unfold LmEngine.registered at honce
    rw [List.map_append, List.map_map] at honce
    exact (List.nodup_append.mp honce).2.1
  · exact ⟨(hsound e).freed _ hentry, hfreed e _ hentry⟩
  · exact kept_of_sound (hsound e) (step_cases hs) ha

end Sound

/-! ## A poll and a free -/

/-- An event of the least length. -/
def shortEvent : EncodedEnvelope := ⟨⟨4096, [0x08, 0x01], 2, by decide, by decide⟩, by decide⟩

/-- A poll, and two frees of the buffer that it returns. -/
def bufferCalls : Setup Unit (Fin 3) where
  calls
    | 0 => .pollEvent (some ()) 0 (some .null)
    | _ => .bufferFree (some ()) (some ⟨4096, 2, 2, 1⟩)
  compatibility _ := none

/-- The buffer is freed once. -/
theorem buffers_delivered_freed :
    ∃ s, run (step bufferCalls) (initial _ _)
        ([.queue () shortEvent] ++ List.replicate 5 (.host 0) ++
          [.host 1, .host 2, .host 1]) = some s ∧
      s.phase 0 = .returned .ok (some ⟨4096, 2, 2, 1⟩) ∧ s.phase 1 = .returned .ok (some .null) ∧
      s.phase 2 = .returned .invalidArgument (some ⟨4096, 2, 2, 1⟩) ∧ Delivered bufferCalls s := by
  have h : (run (step bufferCalls) (initial _ _) ([.queue () shortEvent] ++
      List.replicate 5 (.host 0) ++ [.host 1, .host 2, .host 1])).any (fun s =>
        s.phase 0 = .returned .ok (some ⟨4096, 2, 2, 1⟩) ∧
        s.phase 1 = .returned .ok (some .null) ∧
        s.phase 2 = .returned .invalidArgument (some ⟨4096, 2, 2, 1⟩)) := by
    decide +kernel
  obtain ⟨s, hs, h⟩ := (Option.any_eq_true _ _).mp h
  obtain ⟨hpoll, hfree, hagain⟩ := of_decide_eq_true h
  have hreach := Reach.of_run hs (meets_of_forall (fun _ _ => trivial) _)
  exact ⟨s, hs, hpoll, hfree, hagain, buffers_delivered hreach⟩

end LinguaMesh.Ffi.Buffers
