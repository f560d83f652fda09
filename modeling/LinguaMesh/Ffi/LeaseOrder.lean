import LinguaMesh.Ffi.Leases

/-!
# The order of calls on leases

`consume_document_bytes` looks at the lease for the last time, revokes it and removes
it in three steps. An expire, a revoke or a look at the lease in between is answered,
and then the lease is consumed all the same: no order of the calls explains both
(`leases_torn`). When no such call comes in between, the calls take effect in the
order in which they return (`leases_atomic`).
-/

namespace LinguaMesh.Ffi.FileLeases

open Runs Linearize

/-- The lease that a call consumes. -/
def LeaseCall.consumed : LeaseCall → Option Nat
  | .consumeDocument leaseId _ _ => some leaseId
  | _ => none

def Phase.isRevoked {C : Type} : Phase C → Bool
  | .revoked _ => true
  | _ => false

/-- The call has seen the lease active for the last time, and has not removed it. -/
def Phase.isClosing {C : Type} : Phase C → Bool
  | .checked _ | .revoked _ => true
  | _ => false

/-- The lease that a call holds a clone of. -/
def Phase.held {C : Type} : Phase C → Option C
  | .found lease _ | .acquired lease _ | .checked lease | .revoked lease => some lease
  | _ => none

/-! ## Transitions -/

section Step

variable {C : Type} [DecidableEq C] (setup : Setup C)

inductive Step (s : State C) (k : C) : State C → Prop where
  | refuse {code : LmResultCode} : s.phase k = .called →
    (checkArguments setup.shutdown (setup.calls k) : Except _ (Phase C)) = .error code →
    Step s k ((s.begin k .admitted).finish k (.code code))
  | start {p : Phase C} : s.phase k = .called → checkArguments setup.shutdown (setup.calls k) = .ok p →
    Step s k (s.begin k p)
  | exhausted {source : LeaseSource} {output : Nat} : s.phase k = .admitted →
    setup.calls k = .create source output → Step s k (s.finish k (.code .resourceExhausted))
  | create {source : LeaseSource} {output leaseId next : Nat} : s.phase k = .admitted →
    setup.calls k = .create source output →
    allocate (fun leaseId => (s.find leaseId).isSome) s.nextFileLeaseId (maxFileLeases + 2) =
      some (leaseId, next) →
    Step s k ((s.insert k leaseId next).finish k (.created leaseId))
  | missing {leaseId : Nat} : s.phase k = .admitted →
    setup.calls k ∈ [.expire leaseId, .revoke leaseId, .destroy leaseId, .isActive leaseId] →
    s.find leaseId = none → Step s k (s.finish k (.code .invalidArgument))
  | invalidate {leaseId : Nat} {lease : C} {state : LeaseState} : s.phase k = .admitted →
    setup.calls k ∈ [.expire leaseId, .revoke leaseId] → state ≠ .active →
    s.find leaseId = some lease → Step s k ((s.invalidate lease state).finish k (.code .ok))
  | destroy {leaseId : Nat} {lease : C} : s.phase k = .admitted → setup.calls k = .destroy leaseId →
    s.find leaseId = some lease →
    Step s k (((s.remove leaseId).invalidate lease .revoked).finish k (.code .ok))
  | isActive {leaseId : Nat} {lease : C} : s.phase k = .admitted →
    setup.calls k = .isActive leaseId → s.find leaseId = some lease →
    Step s k (s.finish k (.active (s.lease lease = .active)))
  /-- A consumer returns with an error and leaves the lease. -/
  | fail {leaseId : Nat} {code : LmResultCode} : (setup.calls k).consumed = some leaseId →
    (∀ r, s.phase k ≠ .returned r) → (∀ lease, s.phase k = .revoked lease → s.find leaseId = none) →
    s.phase k ≠ .called → code ≠ .ok → Step s k (s.finish k (.code code))
  | look {leaseId : Nat} {sourceName : Str} {lease : C} : (setup.calls k).consumed = some leaseId →
    s.phase k = .looking sourceName → s.find leaseId = some lease →
    Step s k (s.setPhase k (.found lease sourceName))
  | acquire {sourceName : Str} {lease : C} : s.phase k = .found lease sourceName →
    Step s k (s.setPhase k (.acquired lease sourceName))
  | check {sourceName : Str} {lease : C} : s.phase k = .acquired lease sourceName →
    s.lease lease = .active → Step s k (s.setPhase k (.checked lease))
  | revoke {lease : C} : s.phase k = .checked lease →
    Step s k ((s.invalidate lease .revoked).setPhase k (.revoked lease))
  | consume {leaseId : Nat} {lease : C} : (setup.calls k).consumed = some leaseId →
    s.phase k = .revoked lease → (s.find leaseId).isSome →
    Step s k ((s.remove leaseId).finish k (.code .ok))

variable {setup} {s s' : State C} {k : C}

theorem consumeStep_cases {leaseId : Nat} {document : Bytes}
    (hk : (setup.calls k).consumed = some leaseId)
    (h : consumeStep setup s k leaseId document = some s') : Step setup s k s' := by
  unfold consumeStep at h
  cases hp : s.phase k with
  | looking sourceName =>
    simp only [hp] at h
    split at h <;> cases h
    · exact .fail hk (by rw [hp]; nofun) (by rw [hp]; nofun) (by rw [hp]; nofun) (by nofun)
    · rename_i hfind
      exact .look hk hp hfind
  | found lease sourceName =>
    simp only [hp] at h
    split at h <;> cases h
    · exact .acquire hp
    · exact .fail hk (by rw [hp]; nofun) (by rw [hp]; nofun) (by rw [hp]; nofun) (by nofun)
  | acquired lease sourceName =>
    simp only [hp] at h
    split at h
    · cases h
      exact .fail hk (by rw [hp]; nofun) (by rw [hp]; nofun) (by rw [hp]; nofun) (by nofun)
    · split at h <;> cases h
      · rename_i hactive
        exact .check hp hactive
      · exact .fail hk (by rw [hp]; nofun) (by rw [hp]; nofun) (by rw [hp]; nofun) (by nofun)
  | checked lease =>
    simp only [hp] at h
    cases h
    exact .revoke hp
  | revoked lease =>
    simp only [hp] at h
    split at h <;> cases h
    · rename_i hfind
      exact .consume hk hp hfind
    · rename_i hfind
      exact .fail hk (by rw [hp]; nofun) (fun _ _ => by simpa using hfind) (by rw [hp]; nofun) (by nofun)
  | _ =>
    simp only [hp] at h
    cases h

theorem sectionStep_cases (hp : s.phase k = .admitted)
    (h : sectionStep s k (setup.calls k) = some s') : Step setup s k s' := by
  unfold sectionStep at h
  cases hk : setup.calls k with
  | create source output =>
    simp only [hk] at h
    split at h
    · cases h
      exact .exhausted hp hk
    · obtain ⟨⟨leaseId, next⟩, halloc, rfl⟩ := Option.map_eq_some_iff.mp h
      exact .create hp hk halloc
  | expire leaseId =>
    simp only [hk] at h
    cases h
    split
    · rename_i hfind
      exact .missing hp (by simp [hk]) hfind
    · rename_i hfind
      exact .invalidate hp (by simp [hk]) nofun hfind
  | revoke leaseId =>
    simp only [hk] at h
    cases h
    split
    · rename_i hfind
      exact .missing hp (by simp [hk]) hfind
    · rename_i hfind
      exact .invalidate hp (by simp [hk]) nofun hfind
  | destroy leaseId =>
    simp only [hk] at h
    cases h
    split
    · rename_i hfind
      exact .missing hp (by simp [hk]) hfind
    · rename_i hfind
      exact .destroy hp hk hfind
  | isActive leaseId =>
    simp only [hk] at h
    cases h
    split
    · rename_i hfind
      exact .missing hp (by simp [hk]) hfind
    · rename_i hfind
      exact .isActive hp hk hfind
  | consumeDocument =>
    simp only [hk] at h
    cases h

theorem step_cases (h : step setup s k = some s') : Step setup s k s' := by
  unfold step at h
  split at h
  · rename_i hp
    split at h <;> cases h
    · rename_i hcheck
      exact .refuse hp hcheck
    · rename_i hcheck
      exact .start hp hcheck
  · rename_i hp
    exact sectionStep_cases hp h
  · split at h
    · rename_i leaseId sourceName document hk
      exact consumeStep_cases (by rw [hk]; rfl) h
    · cases h

end Step

/-! ## The registry -/

section Registry

variable {C : Type} [DecidableEq C] {s : State C} {k lease : C} {leaseId other : Nat}

omit [DecidableEq C] in
theorem find_remove : (s.remove leaseId).find other =
    if other = leaseId then none else s.find other := by
  unfold State.find State.remove
  rw [List.find?_filter]
  split
  · rename_i he
    subst he
    simp
  · rename_i he
    congr 2
    funext entry
    by_cases hentry : entry.1 = other
    · simp [hentry, he]
    · simp [hentry]

theorem find_insert (h : s.find leaseId = none) (next : Nat) : (s.insert k leaseId next).find other =
    if other = leaseId then some k else s.find other := by
  unfold State.find State.insert at *
  rw [List.find?_append, Option.map_or]
  split
  · rename_i he
    subst he
    rw [h]
    simp
  · rename_i he
    simp [Ne.symm he]

theorem allocate_first {taken : Nat → Bool} {next tries : Nat} (hpos : 0 < next) (hlt : next < 2 ^ 64)
    (hfree : taken next = false) : allocate taken next (tries + 1) = some (next, next + 1) := by
  unfold allocate
  rw [Nat.mod_eq_of_lt hlt]
  simp [hfree, Nat.ne_of_gt hpos]

theorem invalidate_find {state : LeaseState} : (s.invalidate lease state).find = s.find := by
  unfold State.invalidate
  split <;> rfl

theorem invalidate_phase {state : LeaseState} : (s.invalidate lease state).phase = s.phase := by
  unfold State.invalidate
  split <;> rfl

theorem invalidate_next {state : LeaseState} :
    (s.invalidate lease state).nextFileLeaseId = s.nextFileLeaseId := by
  unfold State.invalidate
  split <;> rfl

theorem invalidate_history {state : LeaseState} : (s.invalidate lease state).history = s.history := by
  unfold State.invalidate
  split <;> rfl

/-- The lease is no longer active. -/
theorem invalidate_self {state : LeaseState} (h : state ≠ .active) :
    (s.invalidate lease state).lease lease ≠ .active := by
  unfold State.invalidate
  split
  · simpa using h
  · assumption

theorem invalidate_other {state : LeaseState} {l : C} (h : l ≠ lease) :
    (s.invalidate lease state).lease l = s.lease l := by
  unfold State.invalidate
  split
  · exact Function.update_of_ne h ..
  · rfl

end Registry

/-! ## The invariant -/

section Held

variable {C : Type} [DecidableEq C] (setup : Setup C)

/-- What holds of the registry, and of the registry `σ` of the calls that have returned. A lease
that a consumer has revoked but not removed counts as active. -/
structure Held (s : State C) (σ : Leases) : Prop where
  known : ∀ leaseId, σ.leases leaseId = none ↔ s.find leaseId = none
  active : ∀ leaseId l, s.find leaseId = some l → (σ.leases leaseId = some true ↔
    s.lease l = .active ∨ ∃ k, (setup.calls k).consumed = some leaseId ∧ s.phase k = .revoked l)
  zero : s.find 0 = none
  next : 0 < s.nextFileLeaseId
  issued : ∀ leaseId l, s.find leaseId = some l → leaseId < s.nextFileLeaseId
  used : ∀ leaseId ∈ σ.used, leaseId < s.nextFileLeaseId
  owned : ∀ leaseId l, s.find leaseId = some l → ∃ r, s.phase l = .returned r
  unique : ∀ leaseId leaseId' l, s.find leaseId = some l → s.find leaseId' = some l →
    leaseId' = leaseId
  consumer : ∀ k l, (s.phase k).held = some l → ∃ leaseId, (setup.calls k).consumed = some leaseId ∧
    leaseId < s.nextFileLeaseId ∧ (∀ leaseId', s.find leaseId' = some l → leaseId' = leaseId) ∧
    (∀ l', s.find leaseId = some l' → l' = l) ∧ ∃ r, s.phase l = .returned r
  closing : ∀ k leaseId l, (setup.calls k).consumed = some leaseId → (s.phase k).isClosing →
    s.find leaseId = some l → σ.leases leaseId = some true
  spent : ∀ k l, s.phase k = .revoked l → s.lease l ≠ .active

variable {setup} {s s' : State C} {σ : Leases} {k : C}

omit [DecidableEq C] in
theorem held_initial : Held setup (initial C) .empty where
  known _ := ⟨fun _ => rfl, fun _ => rfl⟩
  active _ _ h := nomatch h
  zero := rfl
  next := Nat.one_pos
  issued _ _ h := nomatch h
  used _ h := nomatch h
  owned _ _ h := nomatch h
  unique _ _ _ h := nomatch h
  consumer _ _ h := nomatch h
  closing _ _ _ _ h := nomatch h
  spent _ _ h := nomatch h

theorem phase_cases {p : Phase C} (hphase : s'.phase = Function.update s.phase k p) (k' : C) :
    (k' = k ∧ s'.phase k' = p) ∨ (k' ≠ k ∧ s'.phase k' = s.phase k') := by
  by_cases he : k' = k
  · exact .inl ⟨he, by rw [hphase, he, Function.update_self]⟩
  · exact .inr ⟨he, by rw [hphase, Function.update_of_ne he]⟩

/-- A call that has returned before. -/
theorem phase_returned {p : Phase C} (hphase : s'.phase = Function.update s.phase k p)
    (hk : ∀ r, s.phase k ≠ .returned r) {l : C} (h : ∃ r, s.phase l = .returned r) :
    l ≠ k ∧ ∃ r, s'.phase l = .returned r := by
  obtain ⟨r, hr⟩ := h
  rcases phase_cases hphase l with ⟨rfl, -⟩ | ⟨hne, he⟩
  · exact absurd hr (hk r)
  · exact ⟨hne, r, he.trans hr⟩

/-- A call goes on and leaves the registry. -/
theorem Held.goOn (h : Held setup s σ) {p : Phase C} (hfind : s'.find = s.find)
    (hlease : s'.lease = s.lease) (hnext : s'.nextFileLeaseId = s.nextFileLeaseId)
    (hphase : s'.phase = Function.update s.phase k p) (hk : ∀ r, s.phase k ≠ .returned r)
    (hgone : ∀ leaseId l, (setup.calls k).consumed = some leaseId → s.phase k = .revoked l →
      s.find leaseId = none)
    (hnew : ∀ l, p ≠ .revoked l)
    (hheld : ∀ l, p.held = some l → (s.phase k).held = some l ∨
      ∃ leaseId, (setup.calls k).consumed = some leaseId ∧ s.find leaseId = some l)
    (hclosing : ∀ leaseId l, (setup.calls k).consumed = some leaseId → p.isClosing →
      s.find leaseId = some l → σ.leases leaseId = some true) : Held setup s' σ where
  known := hfind ▸ h.known
  active leaseId l hl := by
    rw [hfind] at hl
    rw [h.active leaseId l hl, hlease]
    refine or_congr_right ⟨?_, ?_⟩
    · rintro ⟨k', hc, hp⟩
      rcases phase_cases hphase k' with ⟨rfl, -⟩ | ⟨-, he⟩
      · rw [hgone leaseId l hc hp] at hl
        cases hl
      · exact ⟨k', hc, he.trans hp⟩
    · rintro ⟨k', hc, hp⟩
      rcases phase_cases hphase k' with ⟨-, he⟩ | ⟨-, he⟩
      · exact absurd (he.symm.trans hp) (hnew l)
      · exact ⟨k', hc, he.symm.trans hp⟩
  zero := hfind ▸ h.zero
  next := hnext ▸ h.next
  issued := hfind ▸ hnext ▸ h.issued
  used := hnext ▸ h.used
  owned leaseId l hl := by
    rw [hfind] at hl
    exact (phase_returned hphase hk (h.owned leaseId l hl)).2
  unique := hfind ▸ h.unique
  consumer k' l hl := by
    rw [hfind, hnext]
    have hold : (s.phase k').held = some l → ∃ leaseId, (setup.calls k').consumed = some leaseId ∧
        leaseId < s.nextFileLeaseId ∧ (∀ leaseId', s.find leaseId' = some l → leaseId' = leaseId) ∧
        (∀ l', s.find leaseId = some l' → l' = l) ∧ ∃ r, s'.phase l = .returned r := by
      intro hl
      obtain ⟨leaseId, hc, hlt, hid, hl', hr⟩ := h.consumer k' l hl
      exact ⟨leaseId, hc, hlt, hid, hl', (phase_returned hphase hk hr).2⟩
    rcases phase_cases hphase k' with ⟨rfl, he⟩ | ⟨-, he⟩
    · rw [he] at hl
      rcases hheld l hl with hl | ⟨leaseId, hc, hf⟩
      · exact hold hl
      · refine ⟨leaseId, hc, h.issued leaseId l hf, fun leaseId' => h.unique leaseId leaseId' l hf,
          fun l' hf' => ?_, (phase_returned hphase hk (h.owned leaseId l hf)).2⟩
        exact Option.some.inj (hf'.symm.trans hf)
    · rw [he] at hl
      exact hold hl
  closing k' leaseId l hc hp hl := by
    rw [hfind] at hl
    rcases phase_cases hphase k' with ⟨rfl, he⟩ | ⟨-, he⟩
    · rw [he] at hp
      exact hclosing leaseId l hc hp hl
    · rw [he] at hp
      exact h.closing k' leaseId l hc hp hl
  spent k' l hp := by
    rw [hlease]
    rcases phase_cases hphase k' with ⟨-, he⟩ | ⟨-, he⟩
    · exact absurd (he.symm.trans hp) (hnew l)
    · exact h.spent k' l (he.symm.trans hp)

/-- A call without a lease returns. -/
theorem Held.goBack (h : Held setup s σ) {r : CallResult} (hfind : s'.find = s.find)
    (hlease : s'.lease = s.lease) (hnext : s'.nextFileLeaseId = s.nextFileLeaseId)
    (hphase : s'.phase = Function.update s.phase k (.returned r))
    (hk : ∀ r, s.phase k ≠ .returned r)
    (hgone : ∀ leaseId l, (setup.calls k).consumed = some leaseId → s.phase k = .revoked l →
      s.find leaseId = none) : Held setup s' σ :=
  h.goOn hfind hlease hnext hphase hk hgone (by nofun) (by nofun) (by nofun)

/-- A call returns with a change of one entry of the registry, which is then the entry `x` that
counts as `y`: the entry as it was, one that the call has made, or none. -/
theorem Held.change (h : Held setup s σ) {σ' : Leases} {r : CallResult} {leaseId : Nat} {x : Option C}
    {y : Option Bool} (hfind : ∀ other, s'.find other = if other = leaseId then x else s.find other)
    (hset : ∀ other, σ'.leases other = if other = leaseId then y else σ.leases other)
    (hphase : s'.phase = Function.update s.phase k (.returned r)) (hk : ∀ r, s.phase k ≠ .returned r)
    (hx : ∀ l, x = some l → s.find leaseId = some l ∨ l = k ∧ s.nextFileLeaseId ≤ leaseId)
    (hxy : y = none ↔ x = none) (hactive : ∀ l, x = some l → (y = some true ↔ s'.lease l = .active))
    (hnext : s.nextFileLeaseId ≤ s'.nextFileLeaseId) (hissued : x ≠ none → leaseId < s'.nextFileLeaseId)
    (hused : ∀ leaseId ∈ σ'.used, leaseId < s'.nextFileLeaseId)
    (hother : ∀ other l, other ≠ leaseId → s.find other = some l → s'.lease l = s.lease l)
    (hspent : ∀ l, l ≠ k → s'.lease l = .active → s.lease l = .active)
    (hrevoked : ∀ l other, s.phase k = .revoked l → (setup.calls k).consumed = some other →
      other = leaseId)
    (hquiet : x ≠ none → ∀ k, (setup.calls k).consumed = some leaseId →
      (s.phase k).isClosing = false) : Held setup s' σ' := by
  have hold : ∀ {k' : C} {l : C}, (s'.phase k').held = some l →
      k' ≠ k ∧ s'.phase k' = s.phase k' := by
    intro k' l hl
    rcases phase_cases hphase k' with ⟨-, he⟩ | he
    · rw [he] at hl
      cases hl
    · exact he
  have hfresh : ∀ other l, s.find other = some l → l ≠ k := fun other l hl =>
    (phase_returned hphase hk (h.owned other l hl)).1
  refine ⟨fun other => ?_, fun other l hl => ?_, ?_, ?_, fun other l hl => ?_, hused,
    fun other l hl => ?_, fun o o' l hl hl' => ?_, fun k' l hl => ?_, fun k' other l hc hp hl => ?_,
    fun k' l hp => ?_⟩
  · rw [hset, hfind]
    split
    · exact hxy
    · exact h.known other
  · rw [hfind] at hl
    rw [hset]
    split at hl
    · rename_i he
      subst he
      rw [if_pos rfl, hactive l hl]
      refine ⟨.inl, ?_⟩
      rintro (ha | ⟨k', hc, hp⟩)
      · exact ha
      · have hq := hquiet (by rw [hl]; nofun) k' hc
        rw [← (hold (by rw [hp]; rfl)).2, hp] at hq
        cases hq
    · rename_i hne
      rw [if_neg hne, h.active other l hl, hother other l hne hl]
      refine or_congr_right ⟨?_, ?_⟩
      · rintro ⟨k', hc, hp⟩
        rcases phase_cases hphase k' with ⟨rfl, -⟩ | ⟨-, he⟩
        · exact absurd (hrevoked l other hp hc) hne
        · exact ⟨k', hc, he.trans hp⟩
      · rintro ⟨k', hc, hp⟩
        exact ⟨k', hc, (hold (by rw [hp]; rfl)).2.symm.trans hp⟩
  · rw [hfind]
    split
    · rename_i he
      cases hxl : x with
      | none => rfl
      | some l =>
        rcases hx l hxl with hl | ⟨-, hle⟩
        · rw [← he, h.zero] at hl
          cases hl
        · have := h.next
          omega
    · exact h.zero
  · have := h.next
    omega
  · rw [hfind] at hl
    split at hl
    · rename_i he
      rw [he]
      exact hissued (by rw [hl]; nofun)
    · have := h.issued other l hl
      omega
  · rw [hfind] at hl
    split at hl
    · rcases hx l hl with hl | ⟨rfl, -⟩
      · exact (phase_returned hphase hk (h.owned leaseId l hl)).2
      · exact ⟨r, by rw [hphase, Function.update_self]⟩
    · exact (phase_returned hphase hk (h.owned other l hl)).2
  · -- a lease that the call has made is under no other identifier
    rw [hfind] at hl hl'
    split at hl <;> split at hl'
    · rename_i he he'
      rw [he, he']
    · rename_i he hne'
      rcases hx l hl with hl | ⟨rfl, -⟩
      · exact (h.unique o o' l (he ▸ hl) hl')
      · exact absurd rfl (hfresh o' l hl')
    · rename_i hne he'
      rcases hx l hl' with hl' | ⟨rfl, -⟩
      · exact (h.unique o o' l hl (he' ▸ hl'))
      · exact absurd rfl (hfresh o l hl)
    · exact h.unique o o' l hl hl'
  · obtain ⟨-, he⟩ := hold hl
    rw [he] at hl
    obtain ⟨o, hc, hlt, hid, hl', hr⟩ := h.consumer k' l hl
    obtain ⟨hne, hr'⟩ := phase_returned hphase hk hr
    refine ⟨o, hc, by omega, fun o' ho' => ?_, fun l' ho => ?_, hr'⟩
    · rw [hfind] at ho'
      split at ho'
      · rename_i he
        rcases hx l ho' with ho' | ⟨rfl, -⟩
        · exact hid o' (he ▸ ho')
        · exact absurd rfl hne
      · exact hid o' ho'
    · rw [hfind] at ho
      split at ho
      · rename_i he
        rcases hx l' ho with ho | ⟨-, hle⟩
        · exact hl' l' (he ▸ ho)
        · omega
      · exact hl' l' ho
  · have hsome : ∃ l', (s'.phase k').held = some l' := by
      generalize s'.phase k' = phase at hp
      cases phase <;> first | exact ⟨_, rfl⟩ | cases hp
    obtain ⟨l', hl'⟩ := hsome
    obtain ⟨-, he⟩ := hold hl'
    rw [he] at hp
    rw [hfind] at hl
    rw [hset]
    split at hl
    · rename_i heq
      have := hquiet (by rw [hl]; nofun) k' (heq ▸ hc)
      rw [hp] at this
      cases this
    · rename_i hne
      rw [if_neg hne]
      exact h.closing k' other l hc hp hl
  · have hl : (s'.phase k').held = some l := by
      rw [hp]
      rfl
    obtain ⟨-, he⟩ := hold hl
    rw [he] at hp hl
    obtain ⟨o, -, -, -, -, hr⟩ := h.consumer k' l hl
    exact fun ha => h.spent k' l hp (hspent l (phase_returned hphase hk hr).1 ha)

/-- A consumer revokes its lease. -/
theorem Held.revoke (h : Held setup s σ) {lease : C} (hp : s.phase k = .checked lease) :
    Held setup ((s.invalidate lease .revoked).setPhase k (.revoked lease)) σ := by
  have hphase : ((s.invalidate lease .revoked).setPhase k (.revoked lease)).phase =
      Function.update s.phase k (.revoked lease) := by
    unfold State.setPhase
    rw [invalidate_phase]
  have hk : ∀ r, s.phase k ≠ .returned r := by
    rw [hp]
    exact nofun
  have hfind : ((s.invalidate lease .revoked).setPhase k (.revoked lease)).find = s.find :=
    invalidate_find
  have hnext : ((s.invalidate lease .revoked).setPhase k (.revoked lease)).nextFileLeaseId =
      s.nextFileLeaseId := invalidate_next
  have hself : (s.invalidate lease .revoked).lease lease ≠ .active := invalidate_self nofun
  obtain ⟨own, hown, hlt, hid, hl', hr⟩ := h.consumer k lease (by rw [hp]; rfl)
  refine ⟨hfind ▸ h.known, fun other l hl => ?_, hfind ▸ h.zero, hnext ▸ h.next,
    hfind ▸ hnext ▸ h.issued, hnext ▸ h.used, fun other l hl => ?_, hfind ▸ h.unique,
    fun k' l hl => ?_, fun k' other l hc hp' hl => ?_, fun k' l hp' => ?_⟩
  · rw [hfind] at hl
    by_cases hll : l = lease
    · subst hll
      obtain rfl := hid other hl
      have htrue := h.closing k other l hown (by rw [hp]; rfl) hl
      refine iff_of_true htrue (.inr ⟨k, hown, ?_⟩)
      rw [hphase, Function.update_self]
    · rw [h.active other l hl]
      refine or_congr ?_ ⟨?_, ?_⟩
      · show _ ↔ (s.invalidate lease .revoked).lease l = .active
        rw [invalidate_other hll]
      · rintro ⟨k', hc, hp'⟩
        rcases phase_cases hphase k' with ⟨rfl, -⟩ | ⟨-, he⟩
        · exact nomatch hp.symm.trans hp'
        · exact ⟨k', hc, he.trans hp'⟩
      · rintro ⟨k', hc, hp'⟩
        rcases phase_cases hphase k' with ⟨-, he⟩ | ⟨-, he⟩
        · cases he.symm.trans hp'
          exact absurd rfl hll
        · exact ⟨k', hc, he.symm.trans hp'⟩
  · rw [hfind] at hl
    exact (phase_returned hphase hk (h.owned other l hl)).2
  · rw [hfind, hnext]
    have hold : (s.phase k').held = some l := by
      rcases phase_cases hphase k' with ⟨rfl, he⟩ | ⟨-, he⟩
      · rw [he] at hl
        rw [hp]
        exact hl
      · exact he ▸ hl
    obtain ⟨o, hc, hlt, hid, hl', hr⟩ := h.consumer k' l hold
    exact ⟨o, hc, hlt, hid, hl', (phase_returned hphase hk hr).2⟩
  · rw [hfind] at hl
    refine h.closing k' other l hc ?_ hl
    rcases phase_cases hphase k' with ⟨rfl, -⟩ | ⟨-, he⟩
    · rw [hp]
      rfl
    · exact he ▸ hp'
  · show (s.invalidate lease .revoked).lease l ≠ .active
    by_cases hll : l = lease
    · subst hll
      exact hself
    · rw [invalidate_other hll]
      rcases phase_cases hphase k' with ⟨-, he⟩ | ⟨-, he⟩
      · cases he.symm.trans hp'
        exact absurd rfl hll
      · exact h.spent k' l (he.symm.trans hp')

/-! ## Steps -/

/-- The section of a call under the lock does not come while a consumer of its lease is between its
last look and the removal; a look may come before the consumer revokes. The identifiers of the
leases have not been used up. -/
def Quiet (setup : Setup C) (s : State C) : LeaseCall → Prop
  | .create _ _ => s.nextFileLeaseId < 2 ^ 64
  | .expire leaseId | .revoke leaseId => s.find leaseId ≠ none →
    ∀ k, (setup.calls k).consumed = some leaseId → (s.phase k).isClosing = false
  | .isActive leaseId => s.find leaseId ≠ none →
    ∀ k, (setup.calls k).consumed = some leaseId → (s.phase k).isRevoked = false
  | .destroy _ | .consumeDocument _ _ _ => True

def Orderly (setup : Setup C) (s : State C) (k : C) : Prop :=
  s.phase k = .admitted → Quiet setup s (setup.calls k)

omit [DecidableEq C] in
/-- A refused call has no effect. -/
theorem call_refused {call : LeaseCall} {shutdown : Bool} {code : LmResultCode}
    (h : (checkArguments shutdown call : Except _ (Phase C)) = .error code) (hz : σ.leases 0 = none) :
    σ.call call (.code code) = some σ := by
  unfold checkArguments at h
  cases call with
  | create source output =>
    repeat' split at h
    all_goals first | (cases h; rfl) | cases h
  | consumeDocument leaseId sourceName document =>
    repeat' split at h
    all_goals first | (cases h; rfl) | cases h
  | isActive leaseId =>
    simp only at h
    split at h <;> cases h
    rename_i hzero
    subst hzero
    exact if_pos ⟨hz, rfl⟩
  | expire leaseId | revoke leaseId | destroy leaseId =>
    simp only at h
    split at h <;> cases h
    rename_i hzero
    subst hzero
    show σ.change 0 _ _ = some σ
    unfold Leases.change
    rw [hz]
    rfl

omit [DecidableEq C] in
theorem checkArguments_ok {call : LeaseCall} {shutdown : Bool} {p : Phase C}
    (h : checkArguments shutdown call = .ok p) : p = .admitted ∨ ∃ sourceName, p = .looking sourceName := by
  unfold checkArguments at h
  repeat' split at h
  all_goals first
    | exact .inl (Except.ok.inj h).symm
    | exact .inr ⟨_, (Except.ok.inj h).symm⟩
    | cases h

theorem begin_finish_phase {p : Phase C} {r : CallResult} :
    ((s.begin k p).finish k r).phase = Function.update s.phase k (.returned r) :=
  Function.update_idem ..

omit [DecidableEq C] in
/-- The registry of the calls that have returned knows a lease that is there. -/
theorem Held.knows (h : Held setup s σ) {leaseId : Nat} {lease : C}
    (hfind : s.find leaseId = some lease) : ∃ value, σ.leases leaseId = some value := by
  cases hl : σ.leases leaseId with
  | none =>
    rw [(h.known leaseId).mp hl] at hfind
    cases hfind
  | some value => exact ⟨value, rfl⟩

theorem change_found {leaseId : Nat} {value : Bool} {lease : Option Bool}
    (h : σ.leases leaseId = some value) :
    σ.change leaseId lease .ok = some (σ.set leaseId lease) := by
  unfold Leases.change
  rw [h]
  rfl

theorem set_leases {leaseId other : Nat} {lease : Option Bool} :
    (σ.set leaseId lease).leases other = if other = leaseId then lease else σ.leases other :=
  Function.update_apply ..

/-- The identifier of a new lease, and the state of the registry with it. -/
theorem Held.created (h : Held setup s σ) (hk : ∀ r, s.phase k ≠ .returned r) {r : CallResult}
    (hfree : s.find s.nextFileLeaseId = none)
    (hnone : (setup.calls k).consumed = none) :
    Held setup ((s.insert k s.nextFileLeaseId (s.nextFileLeaseId + 1)).finish k r)
      ⟨(σ.set s.nextFileLeaseId (some true)).leases, s.nextFileLeaseId :: σ.used⟩ := by
  have hnext : ((s.insert k s.nextFileLeaseId (s.nextFileLeaseId + 1)).finish k r).nextFileLeaseId =
      s.nextFileLeaseId + 1 := rfl
  refine h.change (fun other => find_insert hfree (s.nextFileLeaseId + 1))
    (fun other => set_leases) rfl hk ?_
    ⟨nofun, nofun⟩ ?_ ?_ ?_ ?_ ?_ ?_ ?_ ?_
  · rintro l ⟨⟩
    exact .inr ⟨rfl, Nat.le_refl _⟩
  · rintro l ⟨⟩
    exact iff_of_true rfl (Function.update_self ..)
  · omega
  · intro _
    omega
  · intro other hother
    rcases List.mem_cons.mp hother with rfl | hother
    · omega
    · have := h.used other hother
      omega
  · intro other l _ hl
    have hne : l ≠ k := by
      obtain ⟨r, hr⟩ := h.owned other l hl
      rintro rfl
      exact hk r hr
    exact Function.update_of_ne hne ..
  · intro l hne ha
    rw [← ha]
    exact (Function.update_of_ne hne ..).symm
  · intro l other _ hc
    rw [hnone] at hc
    cases hc
  · -- no consumer has this identifier yet
    intro _ k' hc
    by_contra hp
    have hheld : ∃ l, (s.phase k').held = some l := by
      generalize s.phase k' = phase at hp
      cases phase <;> first | exact ⟨_, rfl⟩ | exact absurd rfl hp
    obtain ⟨l, hl⟩ := hheld
    obtain ⟨o, ho, hlt, -⟩ := h.consumer k' l hl
    rw [hc] at ho
    cases ho
    omega

/-- An expire or a revoke of a lease that no consumer is about to remove. -/
theorem Held.shut (h : Held setup s σ) (hk : ∀ r, s.phase k ≠ .returned r) {leaseId : Nat} {lease : C}
    {state : LeaseState} {r : CallResult} (hstate : state ≠ .active)
    (hfound : s.find leaseId = some lease) (hnone : (setup.calls k).consumed = none)
    (hquiet : ∀ k, (setup.calls k).consumed = some leaseId → (s.phase k).isClosing = false) :
    Held setup ((s.invalidate lease state).finish k r) (σ.set leaseId (some false)) := by
  have hnext : ((s.invalidate lease state).finish k r).nextFileLeaseId = s.nextFileLeaseId :=
    invalidate_next
  refine h.change (r := r) (x := some lease) (y := some false) (fun other => ?_)
    (fun other => set_leases) ?_ hk ?_ ⟨nofun, nofun⟩ ?_ (Nat.le_of_eq hnext.symm) ?_ ?_ ?_ ?_ ?_ (fun _ => hquiet)
  · show (s.invalidate lease state).find other = _
    rw [invalidate_find]
    split
    · rename_i he
      exact he ▸ hfound
    · rfl
  · show Function.update (s.invalidate lease state).phase k _ = _
    rw [invalidate_phase]
  · rintro l ⟨⟩
    exact .inl hfound
  · rintro l ⟨⟩
    exact iff_of_false nofun (invalidate_self hstate)
  · intro _
    rw [hnext]
    exact h.issued leaseId lease hfound
  · rw [hnext]
    exact h.used
  · intro other l hne hl
    apply invalidate_other
    rintro rfl
    exact hne (h.unique leaseId other l hfound hl)
  · intro l _ ha
    by_cases hl : l = lease
    · subst hl
      exact absurd ha (invalidate_self hstate)
    · rw [← invalidate_other hl]
      exact ha
  · intro l other _ hc
    rw [hnone] at hc
    cases hc

/-- The end of a lease, whose state may change as well. -/
theorem Held.removed (h : Held setup s σ) (hk : ∀ r, s.phase k ≠ .returned r) {leaseId : Nat} {lease : C}
    {r : CallResult} (hfound : s.find leaseId = some lease)
    (hfind : s'.find = (s.remove leaseId).find)
    (hphase : s'.phase = Function.update s.phase k (.returned r))
    (hnext : s'.nextFileLeaseId = s.nextFileLeaseId)
    (hother : ∀ l, l ≠ lease → s'.lease l = s.lease l)
    (hspent : s'.lease lease = .active → s.lease lease = .active)
    (hrevoked : ∀ l other, s.phase k = .revoked l → (setup.calls k).consumed = some other →
      other = leaseId) : Held setup s' (σ.set leaseId none) := by
  refine h.change (x := none) (y := none) (fun other => hfind ▸ find_remove)
    (fun other => set_leases) hphase hk (by nofun) ⟨fun _ => rfl, fun _ => rfl⟩ (by nofun) (Nat.le_of_eq hnext.symm) (fun hne => absurd rfl hne) ?_ ?_ ?_
    hrevoked (fun hne => absurd rfl hne)
  · rw [hnext]
    exact h.used
  · intro other l hne hl
    apply hother
    rintro rfl
    exact hne (h.unique leaseId other l hfound hl)
  · intro l _ ha
    by_cases hl : l = lease
    · subst hl
      exact hspent ha
    · rw [← hother l hl]
      exact ha

/-- A step that returns is a step of the specification, and others are none. -/
theorem held_step (h : Held setup s σ) (hok : Orderly setup s k) (hs : Step setup s k s') :
    (returns s'.history = returns s.history ∧ Held setup s' σ) ∨
    ∃ r σ', returns s'.history = returns s.history ++ [(k, r)] ∧ spec setup σ k r = some σ' ∧
      Held setup s' σ' := by
  have hbefore : ∀ {p : Phase C}, s.phase k = p → (∀ r, p ≠ .returned r) →
      ∀ r, s.phase k ≠ .returned r := fun hp hne => hp ▸ hne
  cases hs with
  | @refuse code hp hcheck =>
    refine .inr ⟨.code code, σ, ?_, call_refused hcheck ((h.known 0).mpr h.zero), ?_⟩
    · show returns ((s.history ++ [.began k]) ++ [.returned k (.code code)]) = _
      rw [returns_append, returns_append, returns_began, List.append_nil]
      rfl
    · exact h.goBack rfl rfl rfl begin_finish_phase (hbefore hp nofun) (by rw [hp]; nofun)
  | @start p hp hcheck =>
    refine .inl ⟨?_, ?_⟩
    · show returns (s.history ++ [.began k]) = _
      simp
    · rcases checkArguments_ok hcheck with rfl | ⟨sourceName, rfl⟩
      · exact h.goOn rfl rfl rfl rfl (hbefore hp nofun) (by rw [hp]; nofun) nofun nofun nofun
      · exact h.goOn rfl rfl rfl rfl (hbefore hp nofun) (by rw [hp]; nofun) nofun nofun nofun
  | exhausted hp hk =>
    refine .inr ⟨_, σ, returns_append .., ?_, ?_⟩
    · unfold spec
      rw [hk]
      rfl
    · exact h.goBack rfl rfl rfl rfl (hbefore hp nofun) (by rw [hp]; nofun)
  | @create source output leaseId next hp hk halloc =>
    have hlt : s.nextFileLeaseId < 2 ^ 64 := by
      have := hok hp
      rw [hk] at this
      exact this
    have hfree : s.find s.nextFileLeaseId = none := by
      cases hf : s.find s.nextFileLeaseId with
      | none => rfl
      | some l => exact absurd (h.issued _ l hf) (Nat.lt_irrefl _)
    rw [allocate_first h.next hlt (by rw [hfree]; rfl)] at halloc
    cases halloc
    refine .inr ⟨_, _, returns_append .., ?_, h.created (hbefore hp nofun) hfree (by rw [hk]; rfl)⟩
    unfold spec
    rw [hk]
    exact if_neg fun hmem => absurd (h.used _ hmem) (Nat.lt_irrefl _)
  | @missing leaseId hp hk hfind =>
    refine .inr ⟨_, σ, returns_append .., ?_, ?_⟩
    · have hnone := (h.known leaseId).mpr hfind
      have hchange : ∀ lease, σ.change leaseId lease .invalidArgument = some σ := by
        intro lease
        unfold Leases.change
        rw [hnone]
        rfl
      unfold spec
      simp only [List.mem_cons, List.not_mem_nil, or_false] at hk
      rcases hk with hk | hk | hk | hk <;> rw [hk]
      · exact hchange _
      · exact hchange _
      · exact hchange _
      · exact if_pos ⟨hnone, rfl⟩
    · exact h.goBack rfl rfl rfl rfl (hbefore hp nofun) (by rw [hp]; nofun)
  | @invalidate leaseId lease state hp hk hstate hfind =>
    obtain ⟨value, hvalue⟩ := h.knows hfind
    simp only [List.mem_cons, List.not_mem_nil, or_false] at hk
    refine .inr ⟨.code .ok, σ.set leaseId (some false), ?_, ?_, ?_⟩
    · show returns ((s.invalidate lease state).history ++ _) = _
      rw [invalidate_history, returns_append]
      rfl
    · unfold spec
      rcases hk with hk | hk <;> rw [hk] <;> exact change_found hvalue
    · apply h.shut (hbefore hp nofun) hstate hfind
      · rcases hk with hk | hk <;> rw [hk] <;> rfl
      · have hfound : s.find leaseId ≠ none := by
          rw [hfind]
          nofun
        have := hok hp
        rcases hk with hk | hk <;> rw [hk] at this <;> exact this hfound
  | @destroy leaseId lease hp hk hfind =>
    obtain ⟨value, hvalue⟩ := h.knows hfind
    refine .inr ⟨.code .ok, σ.set leaseId none, ?_, ?_, ?_⟩
    · show returns (((s.remove leaseId).invalidate lease .revoked).history ++ _) = _
      rw [invalidate_history, returns_append]
      rfl
    · unfold spec
      rw [hk]
      exact change_found hvalue
    · apply h.removed (hbefore hp nofun) hfind
      · exact invalidate_find
      · show Function.update ((s.remove leaseId).invalidate lease .revoked).phase k _ = _
        rw [invalidate_phase]
        rfl
      · exact invalidate_next
      · exact fun l hl => invalidate_other hl
      · exact fun ha => absurd ha (invalidate_self nofun)
      · rw [hp]
        nofun
  | @isActive leaseId lease hp hk hfind =>
    obtain ⟨value, hvalue⟩ := h.knows hfind
    refine .inr ⟨_, σ, returns_append .., ?_, ?_⟩
    · have hquiet : ∀ k, (setup.calls k).consumed = some leaseId → (s.phase k).isRevoked = false := by
        have := hok hp
        rw [hk] at this
        exact this (by rw [hfind]; nofun)
      have hactive := h.active leaseId lease hfind
      have hsame : value = decide (s.lease lease = .active) := by
        rw [Bool.eq_iff_iff, decide_eq_true_iff]
        rw [hvalue, Option.some_inj] at hactive
        rw [hactive]
        refine ⟨?_, .inl⟩
        rintro (ha | ⟨k', hc, hp'⟩)
        · exact ha
        · have := hquiet k' hc
          rw [hp'] at this
          cases this
      unfold spec
      rw [hk]
      show (if σ.leases leaseId = some (decide (s.lease lease = .active)) then some σ else none) = _
      rw [if_pos (hsame ▸ hvalue)]
    · exact h.goBack rfl rfl rfl rfl (hbefore hp nofun) (by rw [hp]; nofun)
  | @fail leaseId code hk hret hgone hp hcode =>
    refine .inr ⟨.code code, σ, returns_append .., ?_, ?_⟩
    · unfold spec
      cases hcall : setup.calls k with
      | consumeDocument => exact if_pos hcode
      | _ =>
        rw [hcall] at hk
        cases hk
    · refine h.goBack rfl rfl rfl rfl hret fun leaseId' l hc hp => ?_
      rw [hk] at hc
      cases hc
      exact hgone l hp
  | @look leaseId sourceName lease hk hp hfind =>
    refine .inl ⟨rfl, h.goOn rfl rfl rfl rfl (hbefore hp nofun) (by rw [hp]; nofun) nofun ?_ nofun⟩
    rintro l ⟨⟩
    exact .inr ⟨leaseId, hk, hfind⟩
  | acquire hp =>
    refine .inl ⟨rfl, h.goOn rfl rfl rfl rfl (hbefore hp nofun) (by rw [hp]; nofun) nofun ?_ nofun⟩
    rw [hp]
    exact fun l hl => .inl hl
  | @check sourceName lease hp hactive =>
    refine .inl ⟨rfl, h.goOn rfl rfl rfl rfl (hbefore hp nofun) (by rw [hp]; nofun) nofun ?_ ?_⟩
    · rw [hp]
      exact fun l hl => .inl hl
    · intro leaseId l hc _ hl
      obtain ⟨o, ho, -, -, hl', -⟩ := h.consumer k lease (by rw [hp]; rfl)
      rw [hc] at ho
      cases ho
      rw [h.active leaseId l hl, hl' l hl]
      exact .inl hactive
  | revoke hp => exact .inl ⟨congrArg returns invalidate_history, h.revoke hp⟩
  | @consume leaseId lease hk hp hfind =>
    obtain ⟨l, hl⟩ := Option.isSome_iff_exists.mp hfind
    have htrue := h.closing k leaseId l hk (by rw [hp]; rfl) hl
    refine .inr ⟨.code .ok, σ.set leaseId none, returns_append .., ?_, ?_⟩
    · unfold spec
      cases hcall : setup.calls k with
      | consumeDocument =>
        rw [hcall] at hk
        cases hk
        exact if_pos htrue
      | _ =>
        rw [hcall] at hk
        cases hk
    · refine h.removed (hbefore hp nofun) hl rfl rfl rfl (fun _ _ => rfl) id fun l' other _ hc => ?_
      rw [hk] at hc
      cases hc
      rfl

end Held

/-! ## Runs -/

section Runs

variable {C : Type} [DecidableEq C] {setup : Setup C} {s s' : State C} {σ τ : Leases} {k : C}

/-- The history tells how far the calls have come. -/
structure Recorded (s : State C) : Prop where
  wellFormed : WellFormed s.history
  began : ∀ k, s.phase k ≠ .called → .began k ∈ s.history
  returned : ∀ k r, .returned k r ∈ s.history ↔ s.phase k = .returned r

omit [DecidableEq C] in
theorem recorded_initial : Recorded (initial C) where
  wellFormed := .nil
  began _ h := absurd rfl h
  returned _ _ := ⟨nofun, nofun⟩

omit [DecidableEq C] in
theorem Recorded.same (h : Recorded s) (hphase : s'.phase = s.phase) (hhistory : s'.history = s.history) :
    Recorded s' :=
  ⟨hhistory ▸ h.wellFormed, hhistory ▸ hphase ▸ h.began, hhistory ▸ hphase ▸ h.returned⟩

theorem Recorded.move (h : Recorded s) {p : Phase C} (hk : s.phase k ≠ .called)
    (hr : ∀ r, s.phase k ≠ .returned r) (hp : ∀ r, p ≠ .returned r) : Recorded (s.setPhase k p) := by
  refine ⟨h.wellFormed, fun k' hk' => ?_, fun k' r => ?_⟩
  · rcases phase_cases (show (s.setPhase k p).phase = _ from rfl) k' with ⟨rfl, -⟩ | ⟨-, he⟩
    · exact h.began k' hk
    · exact h.began k' (he ▸ hk')
  · refine (h.returned k' r).trans ?_
    rcases phase_cases (show (s.setPhase k p).phase = _ from rfl) k' with ⟨rfl, he⟩ | ⟨-, he⟩
    · rw [he]
      exact iff_of_false (hr r) (hp r)
    · rw [he]

theorem Recorded.begin (h : Recorded s) {p : Phase C} (hk : s.phase k = .called)
    (hp : ∀ r, p ≠ .returned r) : Recorded (s.begin k p) := by
  refine ⟨h.wellFormed.began k, fun k' hk' => ?_, fun k' r => ?_⟩
  · rcases phase_cases (show (s.begin k p).phase = _ from rfl) k' with ⟨rfl, -⟩ | ⟨-, he⟩
    · exact List.mem_append_right _ (List.mem_singleton_self _)
    · exact List.mem_append_left _ (h.began k' (he ▸ hk'))
  · have hmem : .returned k' r ∈ (s.begin k p).history ↔ .returned k' r ∈ s.history := by
      show .returned k' r ∈ s.history ++ [.began k] ↔ _
      simp
    rw [hmem, h.returned k' r]
    rcases phase_cases (show (s.begin k p).phase = _ from rfl) k' with ⟨rfl, he⟩ | ⟨-, he⟩
    · rw [he, hk]
      exact iff_of_false nofun (hp r)
    · rw [he]

theorem Recorded.finish (h : Recorded s) {r : CallResult} (hk : s.phase k ≠ .called)
    (hr : ∀ r, s.phase k ≠ .returned r) : Recorded (s.finish k r) := by
  refine ⟨h.wellFormed.returned (h.began k hk) r, fun k' hk' => ?_, fun k' r' => ?_⟩
  · rcases phase_cases (show (s.finish k r).phase = _ from rfl) k' with ⟨rfl, -⟩ | ⟨-, he⟩
    · exact List.mem_append_left _ (h.began k' hk)
    · exact List.mem_append_left _ (h.began k' (he ▸ hk'))
  · have hmem : .returned k' r' ∈ (s.finish k r).history ↔
        .returned k' r' ∈ s.history ∨ k' = k ∧ r' = r := by
      show .returned k' r' ∈ s.history ++ [.returned k r] ↔ _
      simp
    rw [hmem, h.returned k' r']
    rcases phase_cases (show (s.finish k r).phase = _ from rfl) k' with ⟨rfl, he⟩ | ⟨hne, he⟩
    · rw [he]
      constructor
      · rintro (h' | ⟨-, rfl⟩)
        · exact absurd h' (hr r')
        · rfl
      · rintro ⟨⟩
        exact .inr ⟨rfl, rfl⟩
    · rw [he]
      exact or_iff_left fun h' => hne h'.1

theorem recorded_step (h : Recorded s) (hs : Step setup s k s') : Recorded s' := by
  have hfinish : ∀ {t : State C} {p : Phase C} {r : CallResult}, s.phase k = p → p ≠ .called →
      (∀ r, p ≠ .returned r) → t.phase = s.phase → t.history = s.history →
      Recorded (t.finish k r) := by
    intro t p r hp hcalled hreturned hphase hhistory
    apply (h.same hphase hhistory).finish
    · rw [hphase, hp]
      exact hcalled
    · rw [hphase, hp]
      exact hreturned
  cases hs with
  | refuse hp =>
    have hself : (s.begin k .admitted).phase k = .admitted := Function.update_self ..
    apply Recorded.finish
    · exact h.begin hp nofun
    · rw [hself]
      nofun
    · rw [hself]
      nofun
  | start hp hcheck =>
    rcases checkArguments_ok hcheck with rfl | ⟨sourceName, rfl⟩ <;> exact h.begin hp nofun
  | exhausted hp | missing hp | isActive hp | create hp => exact hfinish hp nofun nofun rfl rfl
  | invalidate hp => exact hfinish hp nofun nofun invalidate_phase invalidate_history
  | destroy hp => exact hfinish hp nofun nofun invalidate_phase invalidate_history
  | fail _ hr _ hk => exact h.finish hk hr
  | look _ hp | acquire hp | check hp =>
    exact h.move (by rw [hp]; nofun) (by rw [hp]; nofun) nofun
  | revoke hp =>
    apply (h.same invalidate_phase invalidate_history).move
    · rw [invalidate_phase, hp]
      nofun
    · rw [invalidate_phase, hp]
      nofun
    · nofun
  | consume _ hp => exact hfinish hp nofun nofun rfl rfl

/-- A call leaves the registry, changes a lease of it, or adds one with a new identifier. -/
theorem call_cases {call : LeaseCall} {r : CallResult} (h : σ.call call r = some τ) :
    τ = σ ∨ (∃ leaseId lease, σ.leases leaseId ≠ none ∧ τ = σ.set leaseId lease) ∨
      ∃ leaseId, leaseId ∉ σ.used ∧ τ = ⟨(σ.set leaseId (some true)).leases, leaseId :: σ.used⟩ := by
  have hchange : ∀ {leaseId lease code}, σ.change leaseId lease code = some τ →
      τ = σ ∨ ∃ leaseId lease, σ.leases leaseId ≠ none ∧ τ = σ.set leaseId lease := by
    intro leaseId lease code h
    unfold Leases.change at h
    split at h
    · rename_i hl
      split at h <;> cases h
      exact .inr ⟨leaseId, lease, by rw [hl]; nofun, rfl⟩
    · split at h <;> cases h
      exact .inl rfl
  unfold Leases.call at h
  split at h
  · split at h <;> cases h
    rename_i hnew
    exact .inr (.inr ⟨_, hnew, rfl⟩)
  · split at h <;> cases h
    exact .inl rfl
  · split at h
    · cases h
      exact .inl rfl
    · split at h <;> cases h
      rename_i hl
      exact .inr (.inl ⟨_, none, by rw [hl]; nofun, rfl⟩)
  · exact (hchange h).imp_right .inl
  · exact (hchange h).imp_right .inl
  · exact (hchange h).imp_right .inl
  · split at h <;> cases h
    exact .inl rfl
  · split at h <;> cases h
    exact .inl rfl
  · cases h

/-- Every lease has an identifier that was given out. -/
theorem used_call {call : LeaseCall} {r : CallResult} (h : σ.call call r = some τ)
    (hused : ∀ leaseId, σ.leases leaseId ≠ none → leaseId ∈ σ.used) (leaseId : Nat)
    (hl : τ.leases leaseId ≠ none) : leaseId ∈ τ.used := by
  rcases call_cases h with rfl | ⟨other, lease, ho, rfl⟩ | ⟨other, -, rfl⟩
  · exact hused leaseId hl
  · rw [set_leases] at hl
    split at hl
    · rename_i he
      exact hused leaseId (he ▸ ho)
    · exact hused leaseId hl
  · rw [set_leases] at hl
    split at hl
    · rename_i he
      exact he ▸ List.mem_cons_self ..
    · exact List.mem_cons_of_mem _ (hused leaseId hl)

/-- A lease that is gone stays so. -/
theorem gone_call {leaseId : Nat} {call : LeaseCall} {r : CallResult} (h : σ.call call r = some τ)
    (hgone : σ.leases leaseId = none ∧ leaseId ∈ σ.used) :
    τ.leases leaseId = none ∧ leaseId ∈ τ.used := by
  rcases call_cases h with rfl | ⟨other, lease, ho, rfl⟩ | ⟨other, ho, rfl⟩
  · exact hgone
  · refine ⟨?_, hgone.2⟩
    rw [set_leases, if_neg]
    · exact hgone.1
    · rintro rfl
      exact ho hgone.1
  · refine ⟨?_, List.mem_cons_of_mem _ hgone.2⟩
    rw [set_leases, if_neg]
    · exact hgone.1
    · rintro rfl
      exact ho hgone.2

omit [DecidableEq C] in
theorem consume_ok {leaseId : Nat} (hk : (setup.calls k).consumed = some leaseId)
    (h : spec setup σ k (.code .ok) = some τ) :
    σ.leases leaseId = some true ∧ τ = σ.set leaseId none := by
  unfold spec at h
  cases hcall : setup.calls k with
  | consumeDocument =>
    rw [hcall] at hk h
    cases hk
    unfold Leases.call at h
    simp only [ne_eq, not_true_eq_false, if_false] at h
    split at h <;> cases h
    rename_i hl
    exact ⟨hl, rfl⟩
  | _ =>
    rw [hcall] at hk
    cases hk

omit [DecidableEq C] in
theorem gone_follow {order : List (C × CallResult)} (h : follow (spec setup) σ order = some τ)
    {leaseId : Nat} (hgone : σ.leases leaseId = none ∧ leaseId ∈ σ.used)
    (hk : (setup.calls k).consumed = some leaseId) : (k, .code .ok) ∉ order := by
  induction order generalizing σ with
  | nil => exact List.not_mem_nil
  | cons kr order ih =>
    obtain ⟨σ', hspec, h⟩ := Option.bind_eq_some_iff.mp h
    refine List.not_mem_cons_of_ne_of_not_mem ?_ (ih h (gone_call hspec hgone))
    rintro rfl
    rw [(consume_ok hk hspec).1] at hgone
    cases hgone.1

omit [DecidableEq C] in
/-- Whatever the calls, a lease is consumed once. -/
theorem consumed_once {order : List (C × CallResult)} (h : follow (spec setup) σ order = some τ)
    (hused : ∀ leaseId, σ.leases leaseId ≠ none → leaseId ∈ σ.used) {k' : C} {leaseId : Nat}
    (hk : (setup.calls k).consumed = some leaseId) (hk' : (setup.calls k').consumed = some leaseId)
    (hmem : (k, .code .ok) ∈ order) (hmem' : (k', .code .ok) ∈ order) : k = k' := by
  induction order generalizing σ with
  | nil => cases hmem
  | cons kr order ih =>
    obtain ⟨σ', hspec, h⟩ := Option.bind_eq_some_iff.mp h
    have hgone : ∀ {k : C}, (setup.calls k).consumed = some leaseId → kr = (k, .code .ok) →
        σ'.leases leaseId = none ∧ leaseId ∈ σ'.used := by
      rintro k hk rfl
      obtain ⟨hl, rfl⟩ := consume_ok hk hspec
      exact ⟨by rw [set_leases, if_pos rfl], hused leaseId (by rw [hl]; nofun)⟩
    rcases List.mem_cons.mp hmem with he | hmem
    · rcases List.mem_cons.mp hmem' with he' | hmem'
      · exact congrArg Prod.fst (he.trans he'.symm)
      · exact absurd hmem' (gone_follow h (hgone hk he.symm) hk')
    · rcases List.mem_cons.mp hmem' with he' | hmem'
      · exact absurd hmem (gone_follow h (hgone hk' he'.symm) hk)
      · exact ih h (used_call hspec hused) hmem hmem'

/-- In a run in which nothing comes between a consumer's last look at its lease and the removal,
the calls that have returned are those of a sequential run with the same results, in which calls
that do not overlap stand as they were; and no lease is consumed twice. -/
theorem leases_atomic (h : Reach (step setup) (Orderly setup) (initial C) s) :
    Linearizable (spec setup) .empty s.history ∧
      ∀ k k' leaseId, (setup.calls k).consumed = some leaseId →
        (setup.calls k').consumed = some leaseId → s.phase k = .returned (.code .ok) →
        s.phase k' = .returned (.code .ok) → k = k' := by
  have hinv : Recorded s ∧ ∃ σ, Held setup s σ ∧
      follow (spec setup) .empty (returns s.history) = some σ := by
    refine h.invariant (I := fun s => Recorded s ∧ ∃ σ, Held setup s σ ∧
      follow (spec setup) .empty (returns s.history) = some σ)
      ⟨recorded_initial, _, held_initial, rfl⟩ fun t k t' ht hok hstep => ?_
    obtain ⟨hrecorded, σ, hheld, hfollow⟩ := ht
    have hcase := step_cases hstep
    refine ⟨recorded_step hrecorded hcase, ?_⟩
    rcases held_step hheld hok hcase with ⟨he, hheld'⟩ | ⟨r, σ', he, hspec, hheld'⟩
    · exact ⟨σ, hheld', he ▸ hfollow⟩
    · refine ⟨σ', hheld', ?_⟩
      rw [he, follow_append, hfollow]
      show (spec setup σ k r).bind _ = _
      rw [hspec]
      rfl
  obtain ⟨hrecorded, σ, -, hfollow⟩ := hinv
  refine ⟨linearizable_of_follow hrecorded.wellFormed (by rw [hfollow]; rfl), ?_⟩
  intro k k' leaseId hk hk' hp hp'
  refine consumed_once hfollow (fun _ hne => absurd rfl hne) hk hk' ?_ ?_
  · exact mem_returns.mpr ((hrecorded.returned k _).mpr hp)
  · exact mem_returns.mpr ((hrecorded.returned k' _).mpr hp')

end Runs

/-! ## A consumer and the calls in between -/

instance decidableQuiet {n : Nat} (setup : Setup (Fin n)) (s : State (Fin n)) :
    (call : LeaseCall) → Decidable (Quiet setup s call)
  | .create _ _ => inferInstanceAs (Decidable (_ < _))
  | .expire leaseId | .revoke leaseId => inferInstanceAs (Decidable (s.find leaseId ≠ none →
      ∀ k, (setup.calls k).consumed = some leaseId → (s.phase k).isClosing = false))
  | .isActive leaseId => inferInstanceAs (Decidable (s.find leaseId ≠ none →
      ∀ k, (setup.calls k).consumed = some leaseId → (s.phase k).isRevoked = false))
  | .destroy _ | .consumeDocument _ _ _ => isTrue trivial

instance {n : Nat} (setup : Setup (Fin n)) (s : State (Fin n)) (k : Fin n) :
    Decidable (Orderly setup s k) :=
  inferInstanceAs (Decidable (_ → _))

/-- A lease, its consumer, a revoke and a look. -/
def leaseCalls : Setup (Fin 4) where
  calls
    | 0 => .create (.descriptor 3) 0
    | 1 => .consumeDocument 1 [0x61] []
    | 2 => .revoke 1
    | 3 => .isActive 1
  shutdown := false
  accepts _ _ := true

/-- The look comes before the consumer revokes, and the revoke after the removal. -/
theorem leases_atomic_orderly :
    ∃ s, run (step leaseCalls) (initial _) [0, 0, 1, 1, 1, 3, 1, 3, 1, 1, 2, 2] = some s ∧
      returns s.history = [(0, .created 1), (3, .active true), (1, .code .ok),
        (2, .code .invalidArgument)] ∧
      Linearizable (spec leaseCalls) .empty s.history ∧
      ∀ k k' leaseId, (leaseCalls.calls k).consumed = some leaseId →
        (leaseCalls.calls k').consumed = some leaseId → s.phase k = .returned (.code .ok) →
        s.phase k' = .returned (.code .ok) → k = k' := by
  have h : (run (step leaseCalls) (initial _) [0, 0, 1, 1, 1, 3, 1, 3, 1, 1, 2, 2]).any fun s =>
      returns s.history = [(0, .created 1), (3, .active true), (1, .code .ok),
        (2, .code .invalidArgument)] := by
    decide +kernel
  obtain ⟨s, hs, h⟩ := (Option.any_eq_true _ _).mp h
  exact ⟨s, hs, of_decide_eq_true h, leases_atomic (.of_run hs (by decide +kernel))⟩

/-- A revoke after the consumer's last look, and a look after its revoke: both succeed, and so does
the consumer. -/
theorem leases_torn :
    (∃ s, Reach (step leaseCalls) (fun _ _ => True) (initial _) s ∧
      returns s.history = [(0, .created 1), (2, .code .ok), (1, .code .ok)] ∧
      ¬ Linearizable (spec leaseCalls) .empty s.history) ∧
    ∃ s, Reach (step leaseCalls) (fun _ _ => True) (initial _) s ∧
      returns s.history = [(0, .created 1), (3, .active false), (1, .code .ok)] ∧
      ¬ Linearizable (spec leaseCalls) .empty s.history := by
  have hrun : ∀ (ks : List (Fin 4)) (order : List (Fin 4 × CallResult)),
      (run (step leaseCalls) (initial _) ks).any (fun s => returns s.history = order) →
      (∀ order' ∈ order.permutations', (follow (spec leaseCalls) .empty order').isSome = false) →
      ∃ s, Reach (step leaseCalls) (fun _ _ => True) (initial _) s ∧ returns s.history = order ∧
        ¬ Linearizable (spec leaseCalls) .empty s.history := by
    intro ks order h horder
    obtain ⟨s, hs, h⟩ := (Option.any_eq_true _ _).mp h
    have hreturns := of_decide_eq_true h
    exact ⟨s, .of_run hs (meets_of_forall (fun _ _ => trivial) _), hreturns,
      not_linearizable (hreturns ▸ horder)⟩
  constructor
  · apply hrun [0, 0, 1, 1, 1, 1, 2, 2, 1, 1] <;> decide +kernel
  · apply hrun [0, 0, 1, 1, 1, 1, 1, 3, 3, 1] <;> decide +kernel

end LinguaMesh.Ffi.FileLeases
