/-!
# Errors

The normalized error that every crate returns.
-/

namespace LinguaMesh

inductive ErrorKind where
  | cancelled | invalidEndpoint | network | timeout | authentication | rateLimited
  | modelUnavailable | malformedResponse | persistence | protocolIncompatible
  | invalidConfiguration | unsupportedCapability | secretUnavailable | secureStorageUnavailable
  | internal
  deriving DecidableEq, Repr

structure TranslationError where
  kind : ErrorKind
  message : String
  retryAfterMs : Option Nat
  deriving DecidableEq, Repr

def TranslationError.new (kind : ErrorKind) (message : String) : TranslationError :=
  ⟨kind, message, none⟩

end LinguaMesh
