import LinguaMesh.Domain.Routing
import Mathlib.Data.List.Pairwise

/-!
# The choice of a candidate

What a decision says of the candidates of a valid profile. In automatic mode the
ranking is the one list that is sorted by score and key, so the order in which the
candidates are given is lost (`automatic_routing`). In manual mode the choice is
the first candidate that was not filtered out, which need not be the first one
(`manual_keeps_iff`).
-/

namespace LinguaMesh.Routing

open Run

/-! ## Constraints -/

/-- The candidate meets the constraints for the request. -/
structure Admits (k : RoutingConstraints) (context : RoutingContext) (c : RoutingCandidate) :
    Prop where
  provider_allowed : k.providerAllowlist = [] ∨ c.providerId ∈ k.providerAllowlist
  provider_not_denied : c.providerId ∉ k.providerDenylist
  model_allowed : k.modelAllowlist = [] ∨ c.modelId ∈ k.modelAllowlist
  model_not_denied : c.modelId ∉ k.modelDenylist
  local_only : k.localOnly → c.local
  remote_allowed : c.local ∨ k.allowRemote
  private_local : k.privacySensitive → context.privacySensitive → c.local
  streaming : k.requireStreaming ∨ context.requireStreaming → c.supportsStreaming
  document : k.requireDocument ∨ context.requireDocument → c.supportsDocument
  fits : context.requestBytes ≤ c.contextCapacityBytes
  within : ∀ limit, k.maxRequestBytes = some limit → context.requestBytes ≤ limit
  quality : ∀ minimum, k.minimumQualityTier = some minimum → minimum ≤ c.qualityTier
  source_locale : ∀ locale, context.sourceLocale = some locale →
    c.sourceLocales = [] ∨ ∃ l ∈ c.sourceLocales, eqIgnoreAsciiCase l locale
  target_locale : c.targetLocales = [] ∨
    ∃ l ∈ c.targetLocales, eqIgnoreAsciiCase l context.targetLocale

theorem lacksLocale_eq_false {supported : List Str} {locale : Str} :
    lacksLocale supported locale = false ↔
      supported = [] ∨ ∃ l ∈ supported, eqIgnoreAsciiCase l locale := by
  unfold lacksLocale
  rw [Bool.and_eq_false_iff, Bool.not_eq_false', Bool.not_eq_false', List.isEmpty_iff,
    List.any_eq_true]

/-- A check that rejects lets the others decide where it does not apply. -/
theorem check_none {P : Prop} [Decidable P] {r o : Option RoutingRejectionReason}
    (hr : r ≠ none) : (if P then r else o) = none ↔ ¬ P ∧ o = none := by
  split <;> simp [*]

theorem any_eq_false_iff {α : Type} {o : Option α} {f : α → Bool} :
    o.any f = false ↔ ∀ a, o = some a → f a = false := by
  cases o <;> simp

/-- A candidate has no rejection reason exactly if it meets the constraints. -/
theorem rejectionReason_none {p : RoutingProfile} {c : RoutingCandidate} {context : RoutingContext} :
    p.rejectionReason c context = none ↔ Admits p.constraints context c := by
  have hprivate (b : Bool) : (if b then some RoutingRejectionReason.privacyRemoteDisallowed
      else some .remoteDisallowed) ≠ none := by
    cases b <;> simp
  unfold RoutingProfile.rejectionReason
  simp only [check_none (Option.some_ne_none _), check_none (hprivate _), and_true,
    any_eq_false_iff, lacksLocale_eq_false, Bool.not_eq_true]
  constructor
  · rintro ⟨h1, h2, h3, h4, h5, h6, h7, h8, h9, h10, h11, h12, h13⟩
    exact {
      provider_allowed := by simpa [or_iff_not_imp_left] using h1
      provider_not_denied := by simpa using h2
      model_allowed := by simpa [or_iff_not_imp_left] using h3
      model_not_denied := by simpa using h4
      local_only := by simpa using h5
      remote_allowed := by grind
      private_local := by grind
      streaming := by simpa using h7
      document := by simpa using h8
      fits := by simpa using h9
      within := by simpa using h10
      quality := by simpa using h11
      source_locale := h12
      target_locale := h13 }
  · intro h
    have hremote : ((!p.constraints.allowRemote ||
        (p.constraints.privacySensitive && context.privacySensitive)) && !c.local) = false := by
      have := h.remote_allowed
      have := h.private_local
      grind
    exact ⟨by simpa [or_iff_not_imp_left] using h.provider_allowed,
      by simpa using h.provider_not_denied, by simpa [or_iff_not_imp_left] using h.model_allowed,
      by simpa using h.model_not_denied, by simpa using h.local_only, hremote,
      by simpa using h.streaming, by simpa using h.document, by simpa using h.fits,
      by simpa using h.within, by simpa using h.quality, h.source_locale, h.target_locale⟩

/-! ## Scores -/

def estimateScore : Option UInt64 → Int
  | none => i64Min
  | some value => -saturate value

/-- The score of a candidate under a preference. -/
def RoutingPreference.score (c : RoutingCandidate) : RoutingPreference → List Int
  | .local => [localComponent c, qualityComponent c]
  | .quality => [qualityComponent c, localComponent c]
  | .latency => [estimateScore c.estimatedLatencyMs, localComponent c]
  | .cost => [estimateScore c.estimatedCostMicros, localComponent c]
  | .none => [localComponent c]

theorem saturate_range (value : UInt64) : 0 ≤ saturate value ∧ saturate value ≤ i64Max := by
  unfold saturate i64Max
  omega

/-- No estimate makes the negation overflow. -/
theorem estimateComponent_eq (e : Option UInt64) : estimateComponent e = .ok (estimateScore e) := by
  cases e with
  | none => rfl
  | some value =>
    have h := saturate_range value
    have hne : saturate value ≠ i64Min := by
      unfold i64Min
      omega
    show negate (saturate value) = _
    rw [negate, if_neg hne]
    rfl

theorem scoreComponents_eq (p : RoutingProfile) (c : RoutingCandidate) :
    p.scoreComponents c = .ok (p.constraints.preference.score c) := by
  unfold RoutingProfile.scoreComponents
  cases p.constraints.preference <;> simp only [estimateComponent_eq, Except.ok_bind] <;> rfl

theorem estimateScore_range (e : Option UInt64) : i64Min ≤ estimateScore e ∧ estimateScore e ≤ 0 := by
  cases e with
  | none => decide
  | some value =>
    have := saturate_range value
    simp only [estimateScore, i64Min, i64Max] at this ⊢
    omega

theorem localComponent_range (c : RoutingCandidate) : 0 ≤ localComponent c ∧ localComponent c ≤ 1 := by
  unfold localComponent
  split <;> decide

theorem qualityComponent_range (c : RoutingCandidate) :
    0 ≤ qualityComponent c ∧ qualityComponent c < 256 := by
  have := c.qualityTier.toNat_lt
  unfold qualityComponent
  omega

/-- Every component of a score is an `i64`. -/
theorem score_range (c : RoutingCandidate) (preference : RoutingPreference) :
    ∀ x ∈ preference.score c, i64Min ≤ x ∧ x ≤ i64Max := by
  have hlocal := localComponent_range c
  have hquality := qualityComponent_range c
  have hlatency := estimateScore_range c.estimatedLatencyMs
  have hcost := estimateScore_range c.estimatedCostMicros
  have hmin : i64Min ≤ 0 := by decide
  have hmax : 256 ≤ i64Max := by decide
  intro x hx
  cases preference <;> simp only [RoutingPreference.score, List.mem_cons, List.not_mem_nil, or_false] at hx <;>
    omega

/-! ## The ranking -/

def RoutingProfile.rankOf (p : RoutingProfile) (c : RoutingCandidate) : RoutingRank :=
  ⟨c, p.constraints.preference.score c⟩

theorem mapM_rank (p : RoutingProfile) (cs : List RoutingCandidate) :
    cs.mapM p.rank = .ok (cs.map p.rankOf) := by
  induction cs with
  | nil => rfl
  | cons c cs ih =>
    have hrank : p.rank c = .ok (p.rankOf c) := by
      unfold RoutingProfile.rank
      rw [scoreComponents_eq]
      rfl
    rw [List.mapM_cons, hrank, Except.ok_bind, ih]
    rfl

theorem rankLe_iff {a b : RoutingRank} : rankLe a b = true ↔
    b.scoreComponents < a.scoreComponents ∨
      a.scoreComponents = b.scoreComponents ∧ a.candidate.key ≤ b.candidate.key := by
  simp [rankLe]

instance : Std.Total (fun left right => rankLe left right = true) where
  total a b := by
    simp only [rankLe_iff]
    rcases lt_trichotomy a.scoreComponents b.scoreComponents with h | h | h
    · exact .inr (.inl h)
    · rcases le_total a.candidate.key b.candidate.key with hk | hk
      · exact .inl (.inr ⟨h, hk⟩)
      · exact .inr (.inr ⟨h.symm, hk⟩)
    · exact .inl (.inl h)

instance : IsTrans RoutingRank (fun left right => rankLe left right = true) where
  trans a b c hab hbc := by
    simp only [rankLe_iff] at *
    rcases hab with hab | ⟨hab, hk⟩
    · rcases hbc with hbc | ⟨hbc, -⟩
      · exact .inl (hbc.trans hab)
      · exact .inl (hbc ▸ hab)
    · rcases hbc with hbc | ⟨hbc, hk'⟩
      · exact .inl (hab ▸ hbc)
      · exact .inr ⟨hab.trans hbc, hk.trans hk'⟩

/-! ## Valid profiles -/

def RoutingCandidate.pair (c : RoutingCandidate) : Str × Str := (c.providerId, c.modelId)

theorem repeatsPair_eq_false {previous cs : List RoutingCandidate} :
    repeatsPair previous cs = false ↔
      (∀ b ∈ previous, ∀ c ∈ cs, b.pair ≠ c.pair) ∧ cs.Pairwise fun a b => a.pair ≠ b.pair := by
  induction cs generalizing previous with
  | nil => simp [repeatsPair]
  | cons c cs ih =>
    have hpair (b : RoutingCandidate) :
        (b.providerId == c.providerId && b.modelId == c.modelId) = false ↔ b.pair ≠ c.pair := by
      simp [RoutingCandidate.pair]
    simp only [repeatsPair, Bool.or_eq_false_iff, List.any_eq_false, Bool.not_eq_true, hpair, ih,
      List.mem_append, List.pairwise_cons, List.mem_cons]
    grind

theorem validateCandidates_iff {cs : List RoutingCandidate} : validateCandidates cs = .ok () ↔
    cs ≠ [] ∧ cs.length ≤ maxRoutingCandidates ∧ (∀ c ∈ cs, validateCandidate c = .ok ()) ∧
      cs.Pairwise fun a b => a.pair ≠ b.pair := by
  unfold validateCandidates
  simp only [Except.bind_ok, Except.refuseIf_ok, Except.forM_ok, repeatsPair_eq_false]
  simp

theorem validateCandidates_perm {cs cs' : List RoutingCandidate} (h : cs'.Perm cs)
    (hv : validateCandidates cs = .ok ()) : validateCandidates cs' = .ok () := by
  obtain ⟨hne, hlen, hall, hpair⟩ := validateCandidates_iff.mp hv
  refine validateCandidates_iff.mpr ⟨fun he => hne ?_, h.length_eq ▸ hlen, fun c hc => ?_, ?_⟩
  · subst he
    exact h.nil_eq.symm
  · exact hall c (h.subset hc)
  · exact (h.pairwise_iff Ne.symm).mpr hpair

theorem validate_candidates {p : RoutingProfile} (h : p.validate = .ok ()) :
    validateCandidates p.candidates = .ok () := by
  unfold RoutingProfile.validate at h
  obtain ⟨-, -, h⟩ := Except.bind_ok.mp h
  obtain ⟨⟨⟩, h, -⟩ := Except.bind_ok.mp h
  exact h

def RoutingProfile.withCandidates (p : RoutingProfile) (cs : List RoutingCandidate) :
    RoutingProfile :=
  { p with candidates := cs }

theorem validate_perm {p : RoutingProfile} (h : p.validate = .ok ()) {cs : List RoutingCandidate}
    (hcs : cs.Perm p.candidates) : (p.withCandidates cs).validate = .ok () := by
  have hv := validateCandidates_perm hcs (validate_candidates h)
  have hv' := validate_candidates h
  unfold RoutingProfile.validate RoutingProfile.withCandidates at *
  simp only [hv, hv'] at h ⊢
  exact h

/-- An identifier has no `@`, so a key tells the provider from the model. -/
theorem key_inj {a b : RoutingCandidate} (ha : validateCandidate a = .ok ())
    (hb : validateCandidate b = .ok ()) (h : a.key = b.key) : a.pair = b.pair := by
  have hplain {c : RoutingCandidate} (hc : validateCandidate c = .ok ()) : '@' ∉ c.providerId := by
    obtain ⟨⟨⟩, hid, -⟩ := Except.bind_ok.mp hc
    have hbytes := Except.refuseIf_ok.mp hid
    simp only [Bool.or_eq_false_iff, Bool.not_eq_false', List.all_eq_true] at hbytes
    exact fun hm => absurd (hbytes.2 '@' hm) (by decide)
  have hcut {c : RoutingCandidate} (hc : validateCandidate c = .ok ()) :
      c.key.takeWhile (· ≠ '@') = c.providerId := by
    unfold RoutingCandidate.key
    have hall : ∀ x ∈ c.providerId, decide (x ≠ '@') = true := fun x hx =>
      decide_eq_true fun he => hplain hc (he ▸ hx)
    rw [List.takeWhile_append_of_pos hall]
    simp
  have hprovider : a.providerId = b.providerId := by
    rw [← hcut ha, h, hcut hb]
  have hmodel : a.modelId = b.modelId := by
    unfold RoutingCandidate.key at h
    rw [hprovider] at h
    exact (List.cons.inj (List.append_cancel_left h)).2
  unfold RoutingCandidate.pair
  rw [hprovider, hmodel]

/-- Candidates of a valid profile with one key are one candidate. -/
theorem eq_of_key {p : RoutingProfile} (h : p.validate = .ok ()) {a b : RoutingCandidate}
    (ha : a ∈ p.candidates) (hb : b ∈ p.candidates) (hk : a.key = b.key) : a = b := by
  obtain ⟨-, -, hall, hpair⟩ := validateCandidates_iff.mp (validate_candidates h)
  have : Std.Symm fun a b : RoutingCandidate => a.pair ≠ b.pair := ⟨fun _ _ => Ne.symm⟩
  by_contra hne
  exact hpair.forall ha hb hne (key_inj (hall a ha) (hall b hb) hk)

/-! ## Decisions -/

def RoutingProfile.ranking (p : RoutingProfile) (context : RoutingContext) : List RoutingRank :=
  ((p.eligible context).map p.rankOf).insertionSort fun left right => rankLe left right

section Decision

variable {p : RoutingProfile} {context : RoutingContext}

theorem ranked_eq : p.ranked (p.eligible context) = .ok (p.ranking context) := by
  unfold RoutingProfile.ranked
  rw [mapM_rank]
  rfl

theorem ranking_candidates : ((p.ranking context).map (·.candidate)).Perm (p.eligible context) := by
  have h := (List.perm_insertionSort (fun left right => rankLe left right)
    ((p.eligible context).map p.rankOf)).map (·.candidate)
  rw [List.map_map] at h
  exact h.trans (by simp [Function.comp_def, RoutingProfile.rankOf])

theorem mem_eligible {c : RoutingCandidate} :
    c ∈ p.eligible context ↔ c ∈ p.candidates ∧ Admits p.constraints context c := by
  unfold RoutingProfile.eligible
  rw [List.mem_filter, Option.isNone_iff_eq_none, rejectionReason_none]

theorem mem_rejected {r : RoutingRejection} (h : r ∈ p.rejected context) :
    ¬ Admits p.constraints context r.candidate := by
  unfold RoutingProfile.rejected at h
  obtain ⟨c, -, hc⟩ := List.mem_filterMap.mp h
  obtain ⟨reason, hreason, rfl⟩ := Option.map_eq_some_iff.mp hc
  rw [← rejectionReason_none, hreason]
  exact Option.some_ne_none _

/-- The filter puts every candidate into one of the two lists. -/
theorem filtered : (p.eligible context ++ (p.rejected context).map (·.candidate)).Perm p.candidates := by
  unfold RoutingProfile.eligible RoutingProfile.rejected
  induction p.candidates with
  | nil => exact .nil
  | cons c cs ih =>
    cases h : p.rejectionReason c context with
    | none => simpa [h] using ih
    | some reason =>
      simp only [List.filter_cons, List.filterMap_cons, h]
      exact List.perm_middle.trans (ih.cons c)

/-- Where no candidate is eligible, each one is rejected. -/
theorem rejected_of_none (h : p.eligible context = []) :
    (p.rejected context).map (·.candidate) = p.candidates := by
  have hsome : ∀ c ∈ p.candidates,
      ((p.rejectionReason c context).map (RoutingRejection.mk c)).map (·.candidate) = some c := by
    intro c hc
    cases hreason : p.rejectionReason c context with
    | none => exact absurd (mem_eligible.mpr ⟨hc, rejectionReason_none.mp hreason⟩) (by simp [h])
    | some reason => rfl
  unfold RoutingProfile.rejected
  rw [List.map_filterMap, List.filterMap_congr hsome, List.filterMap_some]

/-- The candidates in the order of the mode. -/
def RoutingProfile.order (p : RoutingProfile) (context : RoutingContext) : List RoutingCandidate :=
  if p.mode = .automatic then (p.ranking context).map (·.candidate) else p.eligible context

theorem order_perm : (p.order context).Perm (p.eligible context) := by
  unfold RoutingProfile.order
  split
  · exact ranking_candidates
  · exact .refl _

theorem order_eq_nil : p.order context = [] ↔ p.eligible context = [] :=
  ⟨fun h => (h ▸ order_perm).nil_eq.symm, fun h => (h ▸ order_perm).eq_nil⟩

/-- What `select` gives for a valid profile, by the order of its candidates. -/
theorem select_eq (hvalid : p.validate = .ok ()) : p.select context =
    if (trim context.targetLocale).isEmpty then
      fail (.invalidConfiguration "target locale must not be empty")
    else match p.order context with
      | [] => fail (.noEligibleCandidates (p.rejected context))
      | c :: cs => .ok ⟨c, c :: cs, p.rejected context,
          if p.mode = .automatic then p.ranking context else [], p.fallbackOrder (c :: cs)⟩ := by
  have hstart : returnError p.validate = .ok () := by
    rw [hvalid]
    rfl
  unfold RoutingProfile.select
  rw [hstart, Except.ok_bind]
  cases hlocale : (trim context.targetLocale).isEmpty with
  | true => rfl
  | false =>
    cases hcs : p.order context with
    | nil =>
      simp only [order_eq_nil.mp hcs]
      rfl
    | cons c cs =>
      have hsome : (p.eligible context).isEmpty = false := by
        rw [List.isEmpty_eq_false_iff]
        exact fun he => List.cons_ne_nil c cs (hcs ▸ order_eq_nil.mpr he)
      unfold RoutingProfile.order at hcs
      simp only [hsome]
      split at hcs
      · rename_i hmode
        simp only [hmode, if_true, ranked_eq, Except.ok_bind, hcs, firstOf]
        rfl
      · rename_i hmode
        simp only [hmode, if_false, Except.ok_bind, hcs, firstOf]
        rfl

end Decision

/-! ## Automatic mode -/

/-- `a` may come before `b` in a ranking. -/
def Before (a b : RoutingRank) : Prop :=
  b.scoreComponents < a.scoreComponents ∨
    a.scoreComponents = b.scoreComponents ∧ a.candidate.key ≤ b.candidate.key

/-- An estimate is not worse than another one; an unknown one is the worst. -/
def EstimateLe : Option UInt64 → Option UInt64 → Prop
  | _, none => True
  | none, some _ => False
  | some a, some b => saturate a ≤ saturate b

theorem estimateLe_of_score {a b : Option UInt64} (h : estimateScore b ≤ estimateScore a) :
    EstimateLe a b := by
  cases b with
  | none => trivial
  | some b =>
    have hb := saturate_range b
    cases a with
    | none =>
      simp only [estimateScore, i64Min, i64Max] at h hb
      omega
    | some a =>
      simp only [estimateScore] at h
      show saturate a ≤ saturate b
      omega

/-- What a decision says in automatic mode. -/
structure RoutedAutomatically (p : RoutingProfile) (context : RoutingContext)
    (d : RoutingDecision) : Prop where
  partition : (d.eligibleCandidates ++ d.rejectedCandidates.map (·.candidate)).Perm p.candidates
  admitted : ∀ c ∈ d.eligibleCandidates, Admits p.constraints context c
  refused : ∀ r ∈ d.rejectedCandidates, ¬ Admits p.constraints context r.candidate
  selected : d.eligibleCandidates = d.selected :: d.eligibleCandidates.tail
  fallback : d.fallbackOrder =
    if p.constraints.explicitFallbackAllowed then d.eligibleCandidates.tail else []
  selected_admitted : Admits p.constraints context d.selected
  fallback_admitted : ∀ c ∈ d.fallbackOrder, Admits p.constraints context c
  ranked : d.ranking.map (·.candidate) = d.eligibleCandidates
  sorted : d.ranking.Pairwise Before
  scored : ∀ r ∈ d.ranking, r.scoreComponents = p.constraints.preference.score r.candidate
  in_range : ∀ r ∈ d.ranking, ∀ x ∈ r.scoreComponents, i64Min ≤ x ∧ x ≤ i64Max
  latency : p.constraints.preference = .latency → d.ranking.Pairwise fun a b =>
    EstimateLe a.candidate.estimatedLatencyMs b.candidate.estimatedLatencyMs
  cost : p.constraints.preference = .cost → d.ranking.Pairwise fun a b =>
    EstimateLe a.candidate.estimatedCostMicros b.candidate.estimatedCostMicros

/-- What `select` may give in automatic mode; an overflow is not among it. -/
def AutomaticResult (p : RoutingProfile) (context : RoutingContext) :
    Run RoutingError RoutingDecision → Prop
  | .ok d => RoutedAutomatically p context d
  | .error (.err (.noEligibleCandidates rejected)) =>
    rejected.map (·.candidate) = p.candidates ∧ ∀ c ∈ p.candidates, ¬ Admits p.constraints context c
  | .error (.err (.invalidConfiguration _)) => trim context.targetLocale = []
  | .error _ => False

/-- One selection, ranking and fallback order, or one kind of error. -/
def SameChoice : Run RoutingError RoutingDecision → Run RoutingError RoutingDecision → Prop
  | .ok d, .ok d' =>
    d.selected = d'.selected ∧ d.ranking = d'.ranking ∧ d.fallbackOrder = d'.fallbackOrder
  | .error (.err (.noEligibleCandidates _)), .error (.err (.noEligibleCandidates _)) => True
  | .error (.err (.invalidConfiguration m)), .error (.err (.invalidConfiguration m')) => m = m'
  | _, _ => False

section Automatic

variable {p : RoutingProfile} {context : RoutingContext}

theorem sorted_ranking : (p.ranking context).Pairwise Before :=
  (List.pairwise_insertionSort (fun left right => rankLe left right) _).imp rankLe_iff.mp

theorem mem_ranking {r : RoutingRank} (h : r ∈ p.ranking context) :
    ∃ c ∈ p.eligible context, p.rankOf c = r :=
  List.mem_map.mp ((List.mem_insertionSort _).mp h)

/-- The first component decides before the others. -/
theorem head_le_of_before {a b : RoutingRank} {x y : Int} {xs ys : List Int} (h : Before a b)
    (ha : a.scoreComponents = x :: xs) (hb : b.scoreComponents = y :: ys) : y ≤ x := by
  unfold Before at h
  rw [ha, hb] at h
  rcases h with h | ⟨h, -⟩
  · exact List.head_le_of_lt h
  · exact (List.cons.inj h).1.ge

/-- A ranking whose first component is an estimate is sorted by it. -/
theorem sorted_estimates {estimate : RoutingCandidate → Option UInt64}
    (h : ∀ c, p.constraints.preference.score c = [estimateScore (estimate c), localComponent c]) :
    (p.ranking context).Pairwise fun a b =>
      EstimateLe (estimate a.candidate) (estimate b.candidate) := by
  refine sorted_ranking.imp_of_mem fun {a b} ha hb hab => ?_
  obtain ⟨c, -, rfl⟩ := mem_ranking ha
  obtain ⟨c', -, rfl⟩ := mem_ranking hb
  exact estimateLe_of_score (head_le_of_before hab (h c) (h c'))

theorem eligible_perm {cs : List RoutingCandidate} (hcs : cs.Perm p.candidates) :
    ((p.withCandidates cs).eligible context).Perm (p.eligible context) :=
  hcs.filter _

/-- Two rankings of the same candidates are one list. -/
theorem ranking_perm (hvalid : p.validate = .ok ()) {cs : List RoutingCandidate}
    (hcs : cs.Perm p.candidates) :
    (p.withCandidates cs).ranking context = p.ranking context := by
  have hperm : ((p.withCandidates cs).ranking context).Perm (p.ranking context) :=
    (List.perm_insertionSort ..).trans
      (((eligible_perm hcs).map _).trans (List.perm_insertionSort ..).symm)
  refine hperm.eq_of_pairwise ?_ sorted_ranking sorted_ranking
  intro a b ha hb hab hba
  obtain ⟨c, hc, rfl⟩ := mem_ranking (hperm.subset ha)
  obtain ⟨c', hc', rfl⟩ := mem_ranking hb
  -- neither comes before the other only if the keys agree
  have hkey : c.key = c'.key := by
    rcases hab with hab | ⟨heq, hab⟩
    · rcases hba with hba | ⟨hba, -⟩
      · exact absurd hab hba.asymm
      · exact absurd hab (hba ▸ lt_irrefl _)
    · rcases hba with hba | ⟨-, hba⟩
      · exact absurd hba (heq ▸ lt_irrefl _)
      · exact le_antisymm hab hba
  rw [eq_of_key hvalid (mem_eligible.mp hc).1 (mem_eligible.mp hc').1 hkey]

theorem order_eq (hmode : p.mode = .automatic) :
    p.order context = (p.ranking context).map (·.candidate) :=
  if_pos hmode

theorem routed_automatically (hmode : p.mode = .automatic) {c : RoutingCandidate}
    {cs : List RoutingCandidate} (h : p.order context = c :: cs) :
    RoutedAutomatically p context
      ⟨c, c :: cs, p.rejected context, p.ranking context, p.fallbackOrder (c :: cs)⟩ := by
  have hadmits : ∀ d ∈ c :: cs, Admits p.constraints context d := fun d hd =>
    (mem_eligible.mp ((h ▸ order_perm).subset hd)).2
  have hfallback : p.fallbackOrder (c :: cs) =
      if p.constraints.explicitFallbackAllowed then cs else [] := by
    unfold RoutingProfile.fallbackOrder
    simp [hmode]
  have hscore : ∀ r ∈ p.ranking context,
      r.scoreComponents = p.constraints.preference.score r.candidate := by
    intro r hr
    obtain ⟨d, -, rfl⟩ := mem_ranking hr
    rfl
  refine ⟨?_, hadmits, fun r hr => mem_rejected hr, rfl, hfallback, hadmits c List.mem_cons_self,
    fun d hd => hadmits d ?_, ?_, sorted_ranking, hscore, fun r hr => hscore r hr ▸ score_range _ _,
    fun hp => ?_, fun hp => ?_⟩
  · exact ((h ▸ order_perm).append_right _).trans filtered
  · rw [hfallback] at hd
    split at hd
    · exact List.mem_cons_of_mem _ hd
    · cases hd
  · unfold RoutingProfile.order at h
    rwa [if_pos hmode] at h
  · exact sorted_estimates fun c => by rw [hp]; rfl
  · exact sorted_estimates fun c => by rw [hp]; rfl

theorem automaticResult (hmode : p.mode = .automatic) (hvalid : p.validate = .ok ()) :
    AutomaticResult p context (p.select context) := by
  rw [select_eq hvalid, if_pos hmode]
  split
  · rename_i hlocale
    exact List.isEmpty_iff.mp hlocale
  · cases hcs : p.order context with
    | nil =>
      have hnone := order_eq_nil.mp hcs
      refine ⟨rejected_of_none hnone, fun c hc hadmits => ?_⟩
      exact List.not_mem_nil (hnone ▸ mem_eligible.mpr ⟨hc, hadmits⟩)
    | cons c cs => exact routed_automatically hmode hcs

theorem sameChoice (hmode : p.mode = .automatic) (hvalid : p.validate = .ok ())
    {cs : List RoutingCandidate} (hcs : cs.Perm p.candidates) :
    SameChoice (p.select context) ((p.withCandidates cs).select context) := by
  have hmode' : (p.withCandidates cs).mode = .automatic := hmode
  have hranking : (p.withCandidates cs).ranking context = p.ranking context :=
    ranking_perm hvalid hcs
  have horder : (p.withCandidates cs).order context = p.order context := by
    rw [order_eq hmode, order_eq hmode', hranking]
  rw [select_eq hvalid, select_eq (validate_perm hvalid hcs), horder, hranking, if_pos hmode,
    if_pos hmode']
  split
  · rfl
  · cases p.order context with
    | nil => trivial
    | cons c rest => exact ⟨rfl, rfl, rfl⟩

end Automatic

/-- In automatic mode a valid profile routes to a candidate that meets every constraint, without an
overflow, and the order of the candidates does not matter. -/
theorem automatic_routing {p : RoutingProfile} (hmode : p.mode = .automatic)
    (hvalid : p.validate = .ok ()) (context : RoutingContext) :
    AutomaticResult p context (p.select context) ∧
      ∀ cs : List RoutingCandidate, cs.Perm p.candidates →
        SameChoice (p.select context) ((p.withCandidates cs).select context) :=
  ⟨automaticResult hmode hvalid, fun _ => sameChoice hmode hvalid⟩

/-- A model of a local provider, a model of a remote one, and a profile that takes the cheaper. -/
def localModel : RoutingCandidate where
  providerId := "ollama".toList
  modelId := "small".toList
  «local» := true
  supportsStreaming := true
  supportsDocument := false
  contextCapacityBytes := 4096
  qualityTier := 0
  estimatedLatencyMs := none
  estimatedCostMicros := none
  sourceLocales := []
  targetLocales := []

def remoteModel : RoutingCandidate :=
  { localModel with providerId := "remote".toList, «local» := false, estimatedCostMicros := some 7 }

def anyCandidate : RoutingConstraints where
  localOnly := false
  allowRemote := true
  providerAllowlist := []
  providerDenylist := []
  modelAllowlist := []
  modelDenylist := []
  requireStreaming := false
  requireDocument := false
  minimumQualityTier := none
  maxRequestBytes := none
  preference := .cost
  privacySensitive := false
  explicitFallbackAllowed := true

def shortRequest : RoutingContext where
  sourceLocale := none
  targetLocale := "de".toList
  requestBytes := 16
  requireStreaming := true
  requireDocument := false
  privacySensitive := false

def cheapest : RoutingProfile :=
  ⟨"cheapest".toList, .automatic, [localModel, remoteModel], anyCandidate⟩

theorem automatic_routing_cheapest :
    AutomaticResult cheapest shortRequest (cheapest.select shortRequest) ∧
      ∀ cs : List RoutingCandidate, cs.Perm cheapest.candidates →
        SameChoice (cheapest.select shortRequest)
          ((cheapest.withCandidates cs).select shortRequest) :=
  automatic_routing (p := cheapest) rfl (by decide) shortRequest

/-! ## Manual mode -/

/-- A decision, if there is one, is for the first candidate. -/
def KeepsFirst (p : RoutingProfile) (result : Run RoutingError RoutingDecision) : Prop :=
  ∀ d, result = .ok d → p.candidates.head? = some d.selected

/-- The first candidate meets the constraints, or no candidate does. -/
def FirstDecides (p : RoutingProfile) (context : RoutingContext) : Prop :=
  (∃ c ∈ p.candidates, Admits p.constraints context c) →
    ∃ c, p.candidates.head? = some c ∧ Admits p.constraints context c

section Manual

variable {p : RoutingProfile} {context : RoutingContext}

theorem order_manual (hmode : p.mode = .manual) : p.order context = p.eligible context := by
  unfold RoutingProfile.order
  simp [hmode]

/-- The first candidate is the first eligible one exactly if it is eligible itself. -/
theorem head_eligible {c : RoutingCandidate} {cs : List RoutingCandidate}
    (h : p.eligible context = c :: cs) :
    p.candidates.head? = some c ↔ FirstDecides p context := by
  have hc := mem_eligible.mp (h ▸ List.mem_cons_self : c ∈ p.eligible context)
  constructor
  · exact fun hhead _ => ⟨c, hhead, hc.2⟩
  · intro hfirst
    obtain ⟨b, hb, hadmits⟩ := hfirst ⟨c, hc⟩
    cases hcs : p.candidates with
    | nil => simp [hcs] at hb
    | cons a rest =>
      obtain rfl : a = b := by simpa [hcs] using hb
      unfold RoutingProfile.eligible at h
      rw [hcs, List.filter_cons_of_pos (by simpa [rejectionReason_none] using hadmits)] at h
      rw [List.head?_cons, (List.cons.inj h).1]

end Manual

/-- In manual mode the choice stays with the first candidate exactly if there is no choice or the
first candidate is not rejected while another one is left. -/
theorem manual_keeps_iff {p : RoutingProfile} (hmode : p.mode = .manual)
    (context : RoutingContext) :
    KeepsFirst p (p.select context) ↔
      (p.validate = .ok () → trim context.targetLocale ≠ [] → FirstDecides p context) := by
  constructor
  · intro hkeeps hvalid hlocale ⟨c, hc⟩
    cases h : p.eligible context with
    | nil => exact absurd (mem_eligible.mpr hc) (h ▸ List.not_mem_nil)
    | cons b rest =>
      have hselect : p.select context = .ok ⟨b, b :: rest, p.rejected context,
          if p.mode = .automatic then p.ranking context else [], p.fallbackOrder (b :: rest)⟩ := by
        rw [select_eq hvalid, order_manual hmode, h, if_neg (by simpa using hlocale)]
      exact (head_eligible h).mp (hkeeps _ hselect) ⟨c, hc⟩
  · intro hfirst d hd
    have hvalid : p.validate = .ok () := by
      unfold RoutingProfile.select returnError at hd
      obtain ⟨⟨⟩, hstart, -⟩ := Except.bind_ok.mp hd
      exact Except.mapError_ok.mp hstart
    rw [select_eq hvalid, order_manual hmode] at hd
    split at hd
    · cases hd
    · rename_i hlocale
      split at hd
      · cases hd
      · rename_i c cs h
        obtain rfl : _ = d := Except.ok.inj hd
        exact (head_eligible h).mpr (hfirst hvalid (by simpa using hlocale))

def remoteFirst : RoutingProfile :=
  ⟨"remote".toList, .manual, [remoteModel, localModel], { anyCandidate with localOnly := true }⟩

theorem manual_keeps_iff_remoteFirst : KeepsFirst remoteFirst (remoteFirst.select shortRequest) ↔
    (remoteFirst.validate = .ok () → trim shortRequest.targetLocale ≠ [] →
      FirstDecides remoteFirst shortRequest) :=
  manual_keeps_iff (p := remoteFirst) rfl shortRequest

/-- The first candidate is remote where only local ones are allowed, and the second one is taken. -/
theorem manual_substitutes : ¬ ∀ (p : RoutingProfile) (context : RoutingContext),
    p.mode = .manual → KeepsFirst p (p.select context) := by
  intro h
  have hselect : remoteFirst.select shortRequest =
      .ok ⟨localModel, [localModel], [⟨remoteModel, .remoteDisallowed⟩], [], []⟩ := by
    decide
  exact absurd (h remoteFirst shortRequest rfl _ hselect) (by decide)

end LinguaMesh.Routing
