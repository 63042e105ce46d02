import AsmIndex.Json.Basic

namespace AsmIndex

structure ClientSettings where
  includePaths? : Option (List String)
  hover? : Option Bool
  semanticTokens? : Option Bool
  instructionCompletions? : Option Bool
deriving DecidableEq

namespace ClientSettings

def empty : ClientSettings :=
  ⟨none, none, none, none⟩

def sectionName : String := "gasMacroLsp"

def texts? (value : Json) : Option (List String) := do
  (← value.array?).mapM Json.string?

/-- A field that may be missing or null, but is not of another type. -/
def optional? {α : Type} (read? : Json → Option α) : Option Json → Option (Option α)
  | none => some none
  | some .null => some none
  | some value => (read? value).map some

def ofFields? (paths hover tokens instructions : Option Json) : Option ClientSettings := do
  return ⟨← optional? texts? paths, ← optional? Json.bool? hover, ← optional? Json.bool? tokens,
    ← optional? Json.bool? instructions⟩

def whole? (part : Json) : Option ClientSettings :=
  match part with
  | .object _ =>
    ofFields? (part.field? "includePaths") (part.field? "hover") (part.field? "semanticTokens")
      (part.field? "instructionCompletions")
  | .array [paths, hover, tokens, instructions] =>
    ofFields? (some paths) (some hover) (some tokens) (some instructions)
  | _ => none

def fieldwise (part : Json) : ClientSettings where
  includePaths? := (part.field? "includePaths").bind texts?
  hover? := (part.field? "hover").bind Json.bool?
  semanticTokens? := (part.field? "semanticTokens").bind Json.bool?
  instructionCompletions? := (part.field? "instructionCompletions").bind Json.bool?

def ofJson (value : Json) : ClientSettings :=
  let part := (value.field? sectionName).getD value
  (whole? part).getD (fieldwise part)

end ClientSettings

end AsmIndex
