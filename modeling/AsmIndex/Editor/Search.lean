import AsmIndex.Cache
import AsmIndex.Fuzzy.Score
import AsmIndex.Symbol.Listing

namespace AsmIndex.Search

structure Hit where
  score : Nat
  symbol : Symbol
deriving DecidableEq

def Hit.key (hit : Hit) : List String :=
  [hit.symbol.name, hit.symbol.location.uri.text]

def Hit.standsBefore (a b : Hit) : Bool :=
  b.score < a.score ||
    (a.score == b.score &&
      ((compare a.key b.key).isLT ||
        (a.key == b.key && a.symbol.location.line ≤ b.symbol.location.line)))

def symbols (cache : Cache) : List Symbol :=
  cache.entries.toList.flatMap fun document => document.2.table.symbols

def scored (score : String → Nat) (symbols : List Symbol) : List Hit :=
  (symbols.map fun symbol => { score := score symbol.name, symbol }).filter fun hit => 0 < hit.score

def hits (score : String → Nat) (cache : Cache) : List Hit :=
  (scored score (symbols cache)).mergeSort Hit.standsBefore

end AsmIndex.Search

namespace AsmIndex

/-- Searching with a matcher, which scores a name for a query. -/
def searchWith (matcher : String → String → Nat) (cache : Cache) (query : String) : List Symbol :=
  (Search.hits (matcher query) cache).map Search.Hit.symbol

def search (cache : Cache) (query : String) : List Symbol :=
  searchWith Fuzzy.score cache query

end AsmIndex
