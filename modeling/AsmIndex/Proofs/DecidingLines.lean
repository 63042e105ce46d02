import AsmIndex.Proofs.LineGrammar

namespace AsmIndex

namespace Source

/-- The line with the number has the property, and no line behind it has. -/
structure LastLine (lines : List (List Char)) (named : List Char → Prop) (number : Nat) (line : List Char) :
    Prop where
  listed : lines[number]? = some line
  holds : named line
  last : ∀ later row, number < later → lines[later]? = some row → ¬named row

theorem LastLine.unique {lines : List (List Char)} {named : List Char → Prop} {number other : Nat}
    {line row : List Char} (decides : LastLine lines named number line)
    (again : LastLine lines named other row) : number = other ∧ line = row := by
  have order : number < other ∨ number = other ∨ other < number := by omega
  rcases order with before | rfl | behind
  · exact absurd again.holds (decides.last other row before again.listed)
  · exact ⟨rfl, Option.some.inj (decides.listed.symm.trans again.listed)⟩
  · exact absurd decides.holds (again.last number line behind decides.listed)

/-- The directives that decide over this one, wherever their lines stand. -/
def Directive.stronger : Directive → List Directive
  | .define | .segment => []
  | .label => [.segment]
  | .external => [.label, .segment]

end Source

theorem zipIdx_ordered {α : Type} (items : List α) (start : Nat) :
    (items.zipIdx start).Pairwise fun a b => a.2 < b.2 := by
  have numbers : ((items.zipIdx start).map Prod.snd).Pairwise (· < ·) := by
    rw [List.zipIdx_map_snd]
    exact List.pairwise_lt_range'
  exact List.pairwise_map.mp numbers

namespace Scan

open Source Text

def given? {α : Type} (read? : List Char → Nat → Option (List Char × α)) (name : String)
    (row : List Char × Nat) : Option α :=
  match read? row.1 row.2 with
  | some (chars, value) => if String.ofList chars = name then some value else none
  | none => none

theorem getElem?_collect {α : Type} (read? : List Char → Nat → Option (List Char × α))
    (names : NameMap α) (lines : List (List Char)) (name : String) :
    (collect read? names lines)[name]? =
      (lines.zipIdx.reverse.findSome? (given? read? name)).or names[name]? := by
  unfold collect
  generalize lines.zipIdx = rows
  induction rows generalizing names with
  | nil => rfl
  | cons row rows ih =>
    rw [List.foldl_cons, ih, List.reverse_cons, List.findSome?_append, Option.or_assoc]
    congr 1
    simp only [List.findSome?_singleton, given?]
    cases read? row.1 row.2 with
    | none => rfl
    | some found =>
      simp only [Std.ExtTreeMap.getElem?_insert, Std.LawfulEqCmp.compare_eq_iff_eq]
      split <;> rfl

theorem given?_eq_some_iff {α : Type} (read? : List Char → Nat → Option (List Char × α)) (name : String)
    (line : List Char) (number : Nat) (value : α) :
    given? read? name (line, number) = some value ↔ read? line number = some (name.toList, value) := by
  unfold given?
  cases read? line number with
  | none => simp
  | some found =>
    obtain ⟨chars, given⟩ := found
    have spelled : String.ofList chars = name ↔ chars = name.toList :=
      ⟨fun same => by rw [← same, String.toList_ofList], fun same => by rw [same, String.ofList_toList]⟩
    simp [spelled]

section Pass

variable {α : Type} {read? : List Char → Nat → Option (List Char × α)} {name : String}
  {named : List Char → Prop}
  (reads : ∀ line number, named line ↔ ∃ value, read? line number = some (name.toList, value))

include reads

theorem given?_eq_none_iff (line : List Char) (number : Nat) :
    given? read? name (line, number) = none ↔ ¬named line := by
  rw [reads line number, Option.eq_none_iff_forall_ne_some, not_exists]
  refine forall_congr' fun value => ?_
  rw [ne_eq, given?_eq_some_iff]

theorem lastLine_of_findSome? {lines : List (List Char)} {value : α}
    (found : lines.zipIdx.reverse.findSome? (given? read? name) = some value) :
    ∃ number line, LastLine lines named number line ∧ read? line number = some (name.toList, value) := by
  obtain ⟨later, ⟨line, number⟩, earlier, split, given, silent⟩ := List.findSome?_eq_some_iff.mp found
  have read := (given?_eq_some_iff read? name line number value).mp given
  have whole : lines.zipIdx = earlier.reverse ++ (line, number) :: later.reverse := by
    simpa using congrArg List.reverse split
  have place : (line, number) ∈ lines.zipIdx := by
    rw [whole]
    simp
  have before := (List.pairwise_append.mp (whole ▸ zipIdx_ordered lines 0)).2.2
  refine ⟨number, line, ⟨List.mem_zipIdx_iff_getElem?.mp place, (reads line number).mpr ⟨value, read⟩, ?_⟩, read⟩
  intro next row behind listed
  -- the row stands behind the line, so it is among those that were looked at first
  have member : (row, next) ∈ earlier.reverse ++ (line, number) :: later.reverse := by
    rw [← whole]
    exact List.mem_zipIdx_iff_getElem?.mpr listed
  rcases List.mem_append.mp member with early | member
  · have less := before _ early _ (List.mem_cons_self ..)
    omega
  · rcases List.mem_cons.mp member with same | late
    · have equal := (Prod.mk.inj same).2
      omega
    · exact (given?_eq_none_iff reads row next).mp (silent _ (List.mem_reverse.mp late))

theorem findSome?_eq_none_iff_unnamed (lines : List (List Char)) :
    lines.zipIdx.reverse.findSome? (given? read? name) = none ↔ ∀ line ∈ lines, ¬named line := by
  rw [List.findSome?_eq_none_iff]
  constructor
  · intro silent line member
    obtain ⟨number, listed⟩ := List.mem_iff_getElem?.mp member
    have row : (line, number) ∈ lines.zipIdx.reverse :=
      List.mem_reverse.mpr (List.mem_zipIdx_iff_getElem?.mpr listed)
    exact (given?_eq_none_iff reads line number).mp (silent _ row)
  · rintro unnamed ⟨line, number⟩ row
    have listed := List.mem_zipIdx_iff_getElem?.mp (List.mem_reverse.mp row)
    exact (given?_eq_none_iff reads line number).mpr (unnamed line (List.mem_of_getElem? listed))

theorem getElem?_collect_eq_some_iff (names : NameMap α) (lines : List (List Char)) (value : α) :
    (collect read? names lines)[name]? = some value ↔
      (∃ number line, LastLine lines named number line ∧
        read? line number = some (name.toList, value)) ∨
      (∀ line ∈ lines, ¬named line) ∧ names[name]? = some value := by
  rw [getElem?_collect, Option.or_eq_some_iff, findSome?_eq_none_iff_unnamed reads]
  refine or_congr ⟨lastLine_of_findSome? reads, ?_⟩ Iff.rfl
  rintro ⟨number, line, decides, read⟩
  cases found : lines.zipIdx.reverse.findSome? (given? read? name) with
  | none =>
    have unnamed := (findSome?_eq_none_iff_unnamed reads lines).mp found
    exact absurd decides.holds (unnamed line (List.mem_of_getElem? decides.listed))
  | some other =>
    obtain ⟨number', line', again, readAgain⟩ := lastLine_of_findSome? reads found
    obtain ⟨rfl, rfl⟩ := decides.unique again
    rw [(Prod.mk.inj (Option.some.inj (readAgain.symm.trans read))).2]

theorem mem_collect_iff (names : NameMap α) (lines : List (List Char)) :
    name ∈ collect read? names lines ↔ (∃ line ∈ lines, named line) ∨ name ∈ names := by
  rw [Std.ExtTreeMap.mem_iff_isSome_getElem?, Std.ExtTreeMap.mem_iff_isSome_getElem?, getElem?_collect,
    Option.isSome_or, Bool.or_eq_true, ← Option.ne_none_iff_isSome, ne_eq,
    findSome?_eq_none_iff_unnamed reads]
  simp

end Pass

def macroAt? (uri : Uri) (line : List Char) (number : Nat) : Option (List Char × MacroDefinition) :=
  (Source.definition? line).map fun found => (found.1, ⟨String.ofList found.2, .new uri number⟩)

theorem macros_eq_collect (text : String) (uri : Uri) :
    macros text uri = collect (macroAt? uri) ∅ (lines text.toList) :=
  rfl

theorem macroAt?_eq_some_iff (uri : Uri) (name : String) (line : List Char) (number : Nat)
    (definition : MacroDefinition) :
    macroAt? uri line number = some (name.toList, definition) ↔
      ∃ rest, DefineLine line name.toList rest ∧
        definition = ⟨String.ofList (definitionValue rest), .new uri number⟩ := by
  rw [macroAt?, Option.map_eq_some_iff]
  constructor
  · rintro ⟨⟨chars, value⟩, read, same⟩
    obtain ⟨rfl, rfl⟩ := Prod.mk.inj same
    obtain ⟨rest, holds, rfl⟩ := (definition?_eq_some_iff _ _ _).mp read
    exact ⟨rest, holds, rfl⟩
  · rintro ⟨rest, holds, rfl⟩
    exact ⟨(name.toList, definitionValue rest), (definition?_eq_some_iff _ _ _).mpr ⟨rest, holds, rfl⟩, rfl⟩

theorem names_define_iff (uri : Uri) (name : String) (line : List Char) (number : Nat) :
    Directive.define.Names line name.toList ↔
      ∃ definition, macroAt? uri line number = some (name.toList, definition) := by
  simp only [macroAt?_eq_some_iff]
  constructor
  · rintro ⟨rest, holds⟩
    exact ⟨_, rest, holds, rfl⟩
  · rintro ⟨_, rest, holds, _⟩
    exact ⟨rest, holds⟩

/-- A macro is a name that some line defines. The last such line decides: the definition stands there, and its
value is what the line has behind the name, up to the first comment and without the blanks around it. -/
theorem macros_exact (text : String) (uri : Uri) (name : String) :
    (name ∈ macros text uri ↔ ∃ line ∈ lines text.toList, ∃ rest, DefineLine line name.toList rest) ∧
    ∀ definition, (macros text uri)[name]? = some definition ↔
      ∃ number line rest code,
        LastLine (lines text.toList) (Directive.define.Names · name.toList) number line ∧
        DefineLine line name.toList rest ∧ IsBefore CommentStarts rest code ∧
        IsTrimmed code definition.value.toList ∧ definition.location = .new uri number := by
  rw [macros_eq_collect]
  constructor
  · rw [mem_collect_iff (names_define_iff uri name), or_iff_left Std.ExtTreeMap.not_mem_empty]
    exact Iff.rfl
  · intro definition
    rw [getElem?_collect_eq_some_iff (names_define_iff uri name), Std.ExtTreeMap.getElem?_empty]
    constructor
    · rintro (⟨number, line, decides, read⟩ | ⟨_, nothing⟩)
      · obtain ⟨rest, holds, rfl⟩ := (macroAt?_eq_some_iff uri name line number definition).mp read
        obtain ⟨code, before, trimmed⟩ := (definitionValue_eq_iff rest _).mp rfl
        refine ⟨number, line, rest, code, decides, holds, before, ?_, rfl⟩
        rwa [String.toList_ofList]
      · cases nothing
    · rintro ⟨number, line, rest, code, decides, holds, before, trimmed, located⟩
      have value := (definitionValue_eq_iff rest _).mpr ⟨code, before, trimmed⟩
      refine .inl ⟨number, line, decides, (macroAt?_eq_some_iff uri name line number definition).mpr ?_⟩
      refine ⟨rest, holds, ?_⟩
      rw [value, String.ofList_toList, ← located]

/-- The second line decides, and its line comment starts before the block comment. -/
example : let uri := Uri.ofPath (.ofString "/m.S")
    (macros "#define A 1\n # define\tA(x) x*2 //*/ 3\n#defineA 4" uri)["A"]? =
      some ⟨"(x) x*2", .new uri 1⟩ := by
  decide +kernel

def labelAt? (directive : Directive) (uri : Uri) (line : List Char) (number : Nat) :
    Option (List Char × Location) :=
  (directive.name? line).map fun name => (name, .new uri number)

def pass (directive : Directive) (text : String) (uri : Uri) (names : NameMap Location) : NameMap Location :=
  collect (labelAt? directive uri) names (lines text.toList)

theorem labels_eq_passes (text : String) (uri : Uri) :
    labels text uri = pass .segment text uri (pass .label text uri (pass .external text uri ∅)) :=
  rfl

section Labels

variable (directive : Directive) (text : String) (uri : Uri) (name : String)

def Named : Prop :=
  ∃ line ∈ lines text.toList, directive.Names line name.toList

def LastNamed (number : Nat) : Prop :=
  ∃ line, LastLine (lines text.toList) (directive.Names · name.toList) number line

theorem labelAt?_eq_some_iff (line : List Char) (number : Nat) (location : Location) :
    labelAt? directive uri line number = some (name.toList, location) ↔
      directive.Names line name.toList ∧ location = .new uri number := by
  rw [labelAt?, ← Directive.name?_eq_some_iff, Option.map_eq_some_iff]
  constructor
  · rintro ⟨chars, read, same⟩
    obtain ⟨rfl, rfl⟩ := Prod.mk.inj same
    exact ⟨read, rfl⟩
  · rintro ⟨read, rfl⟩
    exact ⟨name.toList, read, rfl⟩

theorem names_label_iff (line : List Char) (number : Nat) :
    directive.Names line name.toList ↔
      ∃ location, labelAt? directive uri line number = some (name.toList, location) := by
  simp only [labelAt?_eq_some_iff, exists_and_left, exists_eq, and_true]

theorem mem_pass_iff (names : NameMap Location) :
    name ∈ pass directive text uri names ↔ Named directive text name ∨ name ∈ names :=
  mem_collect_iff (names_label_iff directive uri name) names (lines text.toList)

theorem getElem?_pass_eq_some_iff (names : NameMap Location) (location : Location) :
    (pass directive text uri names)[name]? = some location ↔
      (∃ number, location = .new uri number ∧ LastNamed directive text name number) ∨
      ¬Named directive text name ∧ names[name]? = some location := by
  rw [pass, getElem?_collect_eq_some_iff (names_label_iff directive uri name)]
  refine or_congr ?_ (and_congr ?_ Iff.rfl)
  · simp only [labelAt?_eq_some_iff]
    constructor
    · rintro ⟨number, line, decides, _, located⟩
      exact ⟨number, located, line, decides⟩
    · rintro ⟨number, located, line, decides⟩
      exact ⟨number, line, decides, decides.holds, located⟩
  · simp [Named]

theorem getElem?_labels_eq_some_iff (location : Location) :
    (labels text uri)[name]? = some location ↔ ∃ number, location = .new uri number ∧
      ∃ directive, directive ≠ .define ∧ LastNamed directive text name number ∧
        ∀ other ∈ directive.stronger, ¬Named other text name := by
  rw [labels_eq_passes, getElem?_pass_eq_some_iff, getElem?_pass_eq_some_iff, getElem?_pass_eq_some_iff,
    Std.ExtTreeMap.getElem?_empty]
  constructor
  · rintro (⟨number, own, decides⟩ |
      ⟨noSection, ⟨number, own, decides⟩ | ⟨noLabel, ⟨number, own, decides⟩ | ⟨_, nothing⟩⟩⟩)
    · exact ⟨number, own, .segment, by decide, decides, by simp [Directive.stronger]⟩
    · exact ⟨number, own, .label, by decide, decides, by simpa [Directive.stronger] using noSection⟩
    · exact ⟨number, own, .external, by decide, decides,
        by simpa [Directive.stronger] using ⟨noLabel, noSection⟩⟩
    · cases nothing
  · rintro ⟨number, own, directive, other, decides, unnamed⟩
    cases directive with
    | define => exact absurd rfl other
    | segment => exact .inl ⟨number, own, decides⟩
    | label =>
      have noSection := unnamed .segment (by decide)
      exact .inr ⟨noSection, .inl ⟨number, own, decides⟩⟩
    | external =>
      have noSection := unnamed .segment (by decide)
      have noLabel := unnamed .label (by decide)
      exact .inr ⟨noSection, .inr ⟨noLabel, .inl ⟨number, own, decides⟩⟩⟩

end Labels

/-- A label is a name that some line brings in as an external name, a label or a section. The last section
line for it decides, else the last label line, else the last external one, wherever they stand. -/
theorem labels_by_precedence (text : String) (uri : Uri) (name : String) :
    (name ∈ labels text uri ↔
      Named .external text name ∨ Named .label text name ∨ Named .segment text name) ∧
    ∀ location, (labels text uri)[name]? = some location ↔ ∃ number, location = .new uri number ∧
      (LastNamed .segment text name number ∨
        ¬Named .segment text name ∧ LastNamed .label text name number ∨
        ¬Named .segment text name ∧ ¬Named .label text name ∧ LastNamed .external text name number) := by
  constructor
  · rw [labels_eq_passes, mem_pass_iff, mem_pass_iff, mem_pass_iff, or_iff_left Std.ExtTreeMap.not_mem_empty,
      or_comm, or_comm (a := Named .label text name), or_assoc]
  · intro location
    rw [getElem?_labels_eq_some_iff]
    refine exists_congr fun number => and_congr_right fun _ => ?_
    constructor
    · rintro ⟨directive, other, decides, unnamed⟩
      cases directive with
      | define => exact absurd rfl other
      | segment => exact .inl decides
      | label => exact .inr (.inl ⟨unnamed .segment (by decide), decides⟩)
      | external => exact .inr (.inr ⟨unnamed .segment (by decide), unnamed .label (by decide), decides⟩)
    · rintro (decides | ⟨noSection, decides⟩ | ⟨noSection, noLabel, decides⟩)
      · exact ⟨.segment, by decide, decides, by simp [Directive.stronger]⟩
      · exact ⟨.label, by decide, decides, by simpa [Directive.stronger] using noSection⟩
      · exact ⟨.external, by decide, decides, by simpa [Directive.stronger] using ⟨noLabel, noSection⟩⟩

/-- The section comes first in the text and still decides. -/
example : let uri := Uri.ofPath (.ofString "/m.S")
    (labels ".section data\ndata:\n .extern data\ndata :" uri)["data"]? = some (.new uri 0) := by
  decide +kernel

end Scan

end AsmIndex
