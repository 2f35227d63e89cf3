import EngineLink.LineServer.Basic

/-!
# A server that polls again and again

A program polls its server while a flag is set. The flag and the system that answers the polls
are a state of their own, which may change with every poll.
-/

namespace EngineLink

/-- What surrounds a server: the flag that lets it poll, and the system that answers. -/
structure Surroundings (σ : Type) where
  running : σ → Bool
  poll : σ → LineServer → PollAnswers × σ

end EngineLink
