import AsmIndex.Path

namespace AsmIndex

structure Settings where
  includePaths : List String
  hover : Bool
  semanticTokens : Bool
  instructionCompletions : Bool
deriving DecidableEq

namespace Settings

def fallback : Settings where
  includePaths := []
  hover := true
  semanticTokens := false
  instructionCompletions := true

end Settings

end AsmIndex
