import AsmIndex.Settings.Client

namespace AsmIndex.ClientSettings

inductive Field
  | includePaths
  | hover
  | semanticTokens
  | instructionCompletions

namespace Field

def key : Field → String
  | .includePaths => "includePaths"
  | .hover => "hover"
  | .semanticTokens => "semanticTokens"
  | .instructionCompletions => "instructionCompletions"

def Value : Field → Type
  | .includePaths => List String
  | .hover | .semanticTokens | .instructionCompletions => Bool

/-- The value as the client writes it. -/
def written : (field : Field) → field.Value → Json
  | .includePaths, paths => .array (paths.map .string)
  | .hover, value | .semanticTokens, value | .instructionCompletions, value => .bool value

def read? : (field : Field) → Json → Option field.Value
  | .includePaths => texts?
  | .hover | .semanticTokens | .instructionCompletions => Json.bool?

end Field

def get (settings : ClientSettings) : (field : Field) → Option field.Value
  | .includePaths => settings.includePaths?
  | .hover => settings.hover?
  | .semanticTokens => settings.semanticTokens?
  | .instructionCompletions => settings.instructionCompletions?

/-- The settings stand in the section of their own if there is one, and else in the value itself. -/
def SectionOf (value part : Json) : Prop :=
  value.field? sectionName = some part ∨ value.field? sectionName = none ∧ part = value

theorem texts?_eq_some_iff (value : Json) (paths : List String) :
    texts? value = some paths ↔ value = .array (paths.map .string) := by
  have string (item : Json) (path : String) : item.string? = some path ↔ item = .string path := by
    cases item <;> simp [Json.string?]
  have items (values : List Json) : values.mapM Json.string? = some paths ↔ values = paths.map .string := by
    induction values generalizing paths with
    | nil => cases paths <;> simp
    | cons item values ih =>
      cases paths <;> simp [List.mapM_cons, Option.bind_eq_some_iff, string, ih]
  cases value <;> simp [texts?, Json.array?, items]

theorem bool?_eq_some_iff (value : Json) (choice : Bool) : value.bool? = some choice ↔ value = .bool choice := by
  cases value <;> simp [Json.bool?]

theorem Field.read?_eq_some_iff (field : Field) (value : Json) (x : field.Value) :
    field.read? value = some x ↔ value = field.written x := by
  cases field with
  | includePaths => exact texts?_eq_some_iff value x
  | hover | semanticTokens | instructionCompletions => exact bool?_eq_some_iff value x

theorem optional?_eq_some {α : Type} {read? : Json → Option α} (null : read? .null = none) {value : Option Json}
    {found : Option α} (read : optional? read? value = some found) : found = value.bind read? := by
  cases value with
  | none => exact (Option.some.inj read).symm
  | some value =>
    cases value with
    | null => exact (Option.some.inj read).symm.trans null.symm
    | _ =>
      obtain ⟨x, same, rfl⟩ := Option.map_eq_some_iff.mp read
      exact same.symm

theorem eq_fieldwise_of_whole? {fields : List (String × Json)} {settings : ClientSettings}
    (read : whole? (.object fields) = some settings) : settings = fieldwise (.object fields) := by
  obtain ⟨paths, readPaths, read⟩ := Option.bind_eq_some_iff.mp read
  obtain ⟨hover, readHover, read⟩ := Option.bind_eq_some_iff.mp read
  obtain ⟨tokens, readTokens, read⟩ := Option.bind_eq_some_iff.mp read
  obtain ⟨instructions, readInstructions, read⟩ := Option.bind_eq_some_iff.mp read
  rw [← Option.some.inj read, optional?_eq_some rfl readPaths, optional?_eq_some rfl readHover,
    optional?_eq_some rfl readTokens, optional?_eq_some rfl readInstructions]
  rfl

theorem ofJson_eq_fieldwise {value : Json} {fields : List (String × Json)}
    (part : SectionOf value (.object fields)) : ofJson value = fieldwise (.object fields) := by
  have chosen : (value.field? sectionName).getD value = .object fields := by
    rcases part with found | ⟨missing, same⟩
    · rw [found]
      rfl
    · rw [missing, same]
      rfl
  change (whole? ((value.field? sectionName).getD value)).getD (fieldwise _) = _
  rw [chosen]
  cases read : whole? (.object fields) with
  | none => rfl
  | some settings => exact eq_fieldwise_of_whole? read

theorem get_ofJson {value : Json} {fields : List (String × Json)} (part : SectionOf value (.object fields))
    (field : Field) : (ofJson value).get field = (fields.lookup field.key).bind field.read? := by
  rw [ofJson_eq_fieldwise part]
  cases field <;> rfl

/-- Each field of a section that is an object has the value that stands under its key if this is of the right type,
and none otherwise, whatever the other keys hold. -/
theorem fields_read_apart {value : Json} {fields : List (String × Json)}
    (part : SectionOf value (.object fields)) (field : Field) :
    (∀ x, (ofJson value).get field = some x ↔ fields.lookup field.key = some (field.written x)) ∧
    ∀ other others, SectionOf other (.object others) → others.lookup field.key = fields.lookup field.key →
      (ofJson other).get field = (ofJson value).get field := by
  constructor
  · intro x
    rw [get_ofJson part, Option.bind_eq_some_iff]
    simp only [Field.read?_eq_some_iff, exists_eq_right]
  · intro other others otherPart same
    rw [get_ofJson otherPart, get_ofJson part, same]

theorem ill_typed_section_read_apart :
    let fields := [("hover", .string "yes"), ("includePaths", .array [.string "inc", .string "/lib"]),
      ("semanticTokens", .null)]
    let value := Json.object [(sectionName, .object fields), ("hover", .bool true)]
    SectionOf value (.object fields) ∧ whole? (.object fields) = none ∧
      (ofJson value).includePaths? = some ["inc", "/lib"] := by
  intro fields value
  have part : SectionOf value (.object fields) := .inl rfl
  exact ⟨part, rfl, ((fields_read_apart part .includePaths).1 ["inc", "/lib"]).mpr rfl⟩

end AsmIndex.ClientSettings
