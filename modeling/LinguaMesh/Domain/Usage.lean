import LinguaMesh.Domain.Text

/-!
# Usage records

The tokens of a translation, as a provider reports them or as they are estimated
from the texts, up to a bound.
-/

namespace LinguaMesh

inductive UsageSource where
  | providerReported | locallyEstimated | unknown
  deriving DecidableEq, Repr

structure UsageRecord where
  source : UsageSource
  inputTokens : Option Nat
  outputTokens : Option Nat
  totalTokens : Option Nat
  deriving DecidableEq, Repr

def maxUsageTokens : Nat := 16777216

def capUsageTokens (value : Option Nat) : Option Nat :=
  value.map fun value => if maxUsageTokens < value then maxUsageTokens else value

def UsageRecord.providerReported (inputTokens outputTokens totalTokens : Option Nat) :
    UsageRecord :=
  ⟨.providerReported, capUsageTokens inputTokens, capUsageTokens outputTokens,
    capUsageTokens totalTokens⟩

/-- A record as providers report it: every field is capped. -/
def UsageRecord.Normalized (record : UsageRecord) : Prop :=
  ∃ inputTokens outputTokens totalTokens,
    record = .providerReported inputTokens outputTokens totalTokens

theorem capUsageTokens_idem (value : Option Nat) :
    capUsageTokens (capUsageTokens value) = capUsageTokens value := by
  cases value with
  | none => rfl
  | some value =>
    simp only [capUsageTokens, Option.map_some, Option.some.injEq]
    split <;> simp [*]

/-- A token for each four bytes begun. -/
def approximateTokenCount (text : Str) : Nat := min ((utf8Len text + 3) / 4) maxUsageTokens

def UsageRecord.locallyEstimated (input output : Str) : UsageRecord :=
  ⟨.locallyEstimated, some (approximateTokenCount input), some (approximateTokenCount output),
    some (min (approximateTokenCount input + approximateTokenCount output) maxUsageTokens)⟩

end LinguaMesh
