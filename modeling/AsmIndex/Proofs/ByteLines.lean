import AsmIndex.Proofs.Decoding
import AsmIndex.Proofs.Load
import AsmIndex.Proofs.ScanLaws

namespace AsmIndex

namespace Source

def byteLines : Bytes → List Bytes
  | [] => [[]]
  | 0x0d :: 0x0a :: rest => [] :: byteLines rest
  | b :: rest =>
    if b = 0x0d ∨ b = 0x0a then [] :: byteLines rest
    else
      match byteLines rest with
      | [] => [[b]]
      | line :: lines => (b :: line) :: lines

def Unbroken {α : Type} (ret feed : α) (row : List α) : Prop :=
  ret ∉ row ∧ feed ∉ row

inductive Rows {α : Type} (ret feed : α) : List α → List (List α) → Prop
  | last {row : List α} (unbroken : Unbroken ret feed row) : Rows ret feed row [row]
  | feed {row rest : List α} {rows : List (List α)} (unbroken : Unbroken ret feed row)
    (more : Rows ret feed rest rows) : Rows ret feed (row ++ feed :: rest) (row :: rows)
  | pair {row rest : List α} {rows : List (List α)} (unbroken : Unbroken ret feed row)
    (more : Rows ret feed rest rows) : Rows ret feed (row ++ ret :: feed :: rest) (row :: rows)
  | lone {row rest : List α} {rows : List (List α)} (unbroken : Unbroken ret feed row)
    (first : rest.head? ≠ some feed) (more : Rows ret feed rest rows) :
    Rows ret feed (row ++ ret :: rest) (row :: rows)

namespace Rows

section

variable {α : Type} {ret feed a : α} {items row : List α} {rows : List (List α)}

theorem ne_nil (split : Rows ret feed items rows) : rows ≠ [] := by
  cases split <;> simp

theorem extend (split : Rows ret feed items (row :: rows)) (inner : ¬(a = ret ∨ a = feed)) :
    Rows ret feed (a :: items) ((a :: row) :: rows) := by
  have wider {row : List α} (unbroken : Unbroken ret feed row) : Unbroken ret feed (a :: row) := by
    simp only [not_or] at inner
    simpa [Unbroken, Ne.symm inner.1, Ne.symm inner.2] using unbroken
  cases split with
  | last unbroken => exact .last (wider unbroken)
  | feed unbroken more => exact .feed (wider unbroken) more
  | pair unbroken more => exact .pair (wider unbroken) more
  | lone unbroken first more => exact .lone (wider unbroken) first more

end

end Rows

theorem rows_byteLines (bytes : Bytes) : Rows 0x0d 0x0a bytes (byteLines bytes) := by
  have empty : Unbroken (0x0d : UInt8) 0x0a [] := by simp [Unbroken]
  fun_induction byteLines bytes with
  | case1 => exact .last empty
  | case2 rest ih => exact .pair empty ih
  | case3 b rest single hard ih =>
    rcases hard with rfl | rfl
    · apply Rows.lone empty _ ih
      intro first
      obtain ⟨more, same⟩ := List.head?_eq_some_iff.mp first
      exact single more rfl same
    · exact .feed empty ih
  | case4 b rest single inner nothing ih => exact absurd nothing ih.ne_nil
  | case5 b rest single inner line lines split ih =>
    rw [split] at ih
    exact ih.extend inner

theorem lines_append {row : List Char} (unbroken : Unbroken '\r' '\n' row) {rest first : List Char}
    {others : List (List Char)} (split : lines rest = first :: others) :
    lines (row ++ rest) = (row ++ first) :: others := by
  induction row with
  | nil => exact split
  | cons c row ih =>
    simp only [Unbroken, List.mem_cons, not_or] at unbroken
    have inner : ¬(c = '\r' ∨ c = '\n') := by
      rintro (rfl | rfl)
      · exact unbroken.1.1 rfl
      · exact unbroken.2.1 rfl
    rw [List.cons_append, lines_cons inner, ih ⟨unbroken.1.2, unbroken.2.2⟩]
    rfl

theorem Rows.lines_eq {text : List Char} {rows : List (List Char)} (split : Rows '\r' '\n' text rows) :
    lines text = rows := by
  induction split with
  | last unbroken =>
    have alone := lines_append unbroken (show lines [] = [[]] from rfl)
    rwa [List.append_nil] at alone
  | feed unbroken _ ih => rw [lines_append unbroken (lines_feed _), List.append_nil, ih]
  | pair unbroken _ ih => rw [lines_append unbroken (lines_pair _), List.append_nil, ih]
  | lone unbroken first _ ih => rw [lines_append unbroken (lines_return first), List.append_nil, ih]

theorem head?_decode_ne_feed {bytes : Bytes} (first : bytes.head? ≠ some 0x0a) :
    (Utf8.decode bytes).head? ≠ some '\n' := by
  cases bytes with
  | nil => simp [Utf8.decode]
  | cons a rest =>
    by_cases ascii : a < 0x80
    · rw [Utf8.decode_ascii ascii]
      intro same
      have same : Char.ofNat a.toNat = '\n' := Option.some.inj same
      have value := congrArg Char.toNat same
      rw [Utf8.toNat_ofNat_byte] at value
      exact first (congrArg some (UInt8.toNat_inj.mp value))
    · rw [Utf8.decode_part ascii]
      intro same
      have high := Utf8.partChar_high a rest
      rw [Option.some.inj same] at high
      exact absurd high (by decide)

theorem Unbroken.decode {row : Bytes} (unbroken : Unbroken 0x0d 0x0a row) :
    Unbroken '\r' '\n' (Utf8.decode row) :=
  ⟨fun member => unbroken.1 (Utf8.mem_of_mem_decode member (by decide)),
    fun member => unbroken.2 (Utf8.mem_of_mem_decode member (by decide))⟩

theorem Rows.decode {bytes : Bytes} {rows : List Bytes} (split : Rows 0x0d 0x0a bytes rows) :
    Rows '\r' '\n' (Utf8.decode bytes) (rows.map Utf8.decode) := by
  induction split with
  | last unbroken => exact .last unbroken.decode
  | feed unbroken _ ih =>
    rw [Utf8.decode_append_ascii (by decide)]
    exact .feed unbroken.decode ih
  | pair unbroken _ ih =>
    rw [Utf8.decode_append_ascii (by decide), Utf8.decode_ascii (by decide)]
    exact .pair unbroken.decode ih
  | lone unbroken first _ ih =>
    rw [Utf8.decode_append_ascii (by decide)]
    exact .lone unbroken.decode (head?_decode_ne_feed first) ih

theorem lines_decode (bytes : Bytes) : lines (Utf8.decode bytes) = (byteLines bytes).map Utf8.decode :=
  (rows_byteLines bytes).decode.lines_eq

theorem lastLine_iff {lines : List (List Char)} {number : Nat} {line : List Char}
    (listed : lines[number]? = some line) (named : List Char → Prop) (row : List Char) :
    LastLine lines named number row ↔
      row = line ∧ named line ∧ ∀ later ∈ lines.drop (number + 1), ¬named later := by
  constructor
  · intro last
    obtain rfl := Option.some.inj (listed.symm.trans last.listed)
    refine ⟨rfl, last.holds, fun later member => ?_⟩
    obtain ⟨offset, found⟩ := List.mem_iff_getElem?.mp member
    rw [List.getElem?_drop] at found
    exact last.last _ later (by omega) found
  · rintro ⟨rfl, holds, silent⟩
    refine ⟨listed, holds, fun later other behind found => ?_⟩
    apply silent
    rw [List.mem_iff_getElem?]
    refine ⟨later - (number + 1), ?_⟩
    rw [List.getElem?_drop, ← found]
    congr 1
    omega

end Source

namespace Scan

open Source

section Rows

variable (text : String) (uri : Uri) (name : String)

theorem getElem?_macros_iff_row (definition : MacroDefinition) :
    (macros text uri)[name]? = some definition ↔
      ∃ number line, (lines text.toList)[number]? = some line ∧ definition.location = .new uri number ∧
        Source.definition? line = some (name.toList, definition.value.toList) ∧
        ∀ later ∈ (lines text.toList).drop (number + 1), ¬Directive.define.Names later name.toList := by
  rw [macros_eq_collect, getElem?_collect_eq_some_iff (names_define_iff uri name),
    Std.ExtTreeMap.getElem?_empty]
  constructor
  · rintro (⟨number, line, last, read⟩ | ⟨_, nothing⟩)
    · obtain ⟨⟨chars, value⟩, given, pair⟩ := Option.map_eq_some_iff.mp read
      obtain ⟨rfl, rfl⟩ := Prod.mk.inj pair
      refine ⟨number, line, last.listed, rfl, ?_, ((lastLine_iff last.listed _ line).mp last).2.2⟩
      rwa [String.toList_ofList]
    · cases nothing
  · rintro ⟨number, line, listed, located, read, silent⟩
    have given : macroAt? uri line number = some (name.toList, definition) := by
      rw [macroAt?, read, Option.map_some, String.ofList_toList, ← located]
    have names := (names_define_iff uri name line number).mpr ⟨_, given⟩
    exact .inl ⟨number, line, (lastLine_iff listed _ line).mpr ⟨rfl, names, silent⟩, given⟩

theorem getElem?_labels_iff_row (location : Location) :
    (labels text uri)[name]? = some location ↔
      ∃ number line, (lines text.toList)[number]? = some line ∧ location = .new uri number ∧
        ∃ directive : Directive, directive ≠ .define ∧ directive.name? line = some name.toList ∧
          (∀ later ∈ (lines text.toList).drop (number + 1), ¬directive.Names later name.toList) ∧
          ∀ other ∈ directive.stronger, ∀ row ∈ lines text.toList, ¬other.Names row name.toList := by
  rw [getElem?_labels_eq_some_iff]
  constructor
  · rintro ⟨number, located, directive, other, ⟨line, last⟩, unnamed⟩
    obtain ⟨_, holds, silent⟩ := (lastLine_iff last.listed _ line).mp last
    refine ⟨number, line, last.listed, located, directive, other, ?_, silent, ?_⟩
    · exact (directive.name?_eq_some_iff _ _).mpr holds
    · simpa [Named] using unnamed
  · rintro ⟨number, line, listed, located, directive, other, read, silent, unnamed⟩
    have holds := (directive.name?_eq_some_iff _ _).mp read
    refine ⟨number, located, directive, other, ⟨line, (lastLine_iff listed _ line).mpr ⟨rfl, holds, silent⟩⟩, ?_⟩
    simpa [Named] using unnamed

end Rows

def headers (lines : List (List Char)) : List String :=
  (lines.filterMap includeName?).map String.ofList

theorem includes_at {text : String} {number : Nat} {line : List Char}
    (listed : (lines text.toList)[number]? = some line) :
    includes text = headers ((lines text.toList).take number) ++ headers [line] ++
      headers ((lines text.toList).drop (number + 1)) := by
  obtain ⟨inside, here⟩ := List.getElem?_eq_some_iff.mp listed
  have parts : (lines text.toList).take number ++ line :: (lines text.toList).drop (number + 1) =
      lines text.toList := by
    rw [← here, ← List.drop_eq_getElem_cons inside, List.take_append_drop]
  have append (front back : List (List Char)) : headers (front ++ back) = headers front ++ headers back := by
    simp [headers]
  calc includes text = headers (lines text.toList) := rfl
    _ = headers ((lines text.toList).take number ++ ([line] ++ (lines text.toList).drop (number + 1))) := by
      rw [List.singleton_append, parts]
    _ = _ := by rw [append, append, List.append_assoc]

def NamedIn (directive : Directive) (rows : List Bytes) (name : String) : Prop :=
  ∃ row ∈ rows, directive.Names (Utf8.decode row) name.toList

theorem not_namedIn_iff (directive : Directive) (rows : List Bytes) (name : String) :
    ¬NamedIn directive rows name ↔ ∀ line ∈ rows.map Utf8.decode, ¬directive.Names line name.toList := by
  simp [NamedIn]

end Scan

namespace Cache

open Source Scan

/-- A header is read line by line, whatever its bytes are. A line that is text brings in what it says at its own
number, unless other lines name the same macro behind it or the same label with more weight; and nothing else is
brought in. -/
theorem load_lines_apart (cache : Cache) {machine : Machine} {uri : Uri} {path : Path} {bytes : Bytes}
    (backed : uri.toPath? = some path) (readable : machine.read? path = some bytes) :
    let text := Utf8.decodeString bytes
    let rows := byteLines bytes
    cache.load? machine uri = some (cache.scanEntry machine uri text) ∧
    lines text.toList = rows.map Utf8.decode ∧
    (∀ number line, rows[number]? = some (Utf8.encode line) →
      let later := rows.drop (number + 1)
      (∀ name value, Source.definition? line = some (String.toList name, String.toList value) →
        ¬NamedIn .define later name → (scan text uri).macros[name]? = some ⟨value, .new uri number⟩) ∧
      (∀ name (directive : Directive), directive ≠ .define → directive.name? line = some (String.toList name) →
        ¬NamedIn directive later name → (∀ other ∈ directive.stronger, ¬NamedIn other rows name) →
        (scan text uri).labels[name]? = some (.new uri number)) ∧
      includes text =
        headers ((rows.take number).map Utf8.decode) ++ headers [line] ++ headers (later.map Utf8.decode)) ∧
    (∀ (name : String) definition, (scan text uri).macros[name]? = some definition →
      ∃ number row, rows[number]? = some row ∧ definition.location = .new uri number ∧
        Source.definition? (Utf8.decode row) = some (name.toList, definition.value.toList) ∧
        ¬NamedIn .define (rows.drop (number + 1)) name) ∧
    ∀ (name : String) location, (scan text uri).labels[name]? = some location →
      ∃ number row, rows[number]? = some row ∧ location = .new uri number ∧
        ∃ directive : Directive, directive ≠ .define ∧ directive.name? (Utf8.decode row) = some name.toList ∧
          ¬NamedIn directive (rows.drop (number + 1)) name ∧
          ∀ other ∈ directive.stronger, ¬NamedIn other rows name := by
  intro text rows
  have split : lines text.toList = rows.map Utf8.decode := by
    change lines (String.ofList (Utf8.decode bytes)).toList = _
    rw [String.toList_ofList]
    exact lines_decode bytes
  refine ⟨?_, split, fun number line valid => ?_, fun name definition found => ?_, fun name location found => ?_⟩
  · rw [load?_eq_map, backed, Option.bind_some, readable]
    rfl
  · have listed : (lines text.toList)[number]? = some line := by
      rw [split, List.getElem?_map, valid, Option.map_some, Utf8.decode_encode]
    refine ⟨fun name value read silent => ?_, fun name directive other read silent unnamed => ?_, ?_⟩
    · refine (getElem?_macros_iff_row text uri name _).mpr ⟨number, line, listed, rfl, read, ?_⟩
      rwa [not_namedIn_iff, List.map_drop, ← split] at silent
    · refine (getElem?_labels_iff_row text uri name _).mpr
        ⟨number, line, listed, rfl, directive, other, read, ?_, fun other member => ?_⟩
      · rwa [not_namedIn_iff, List.map_drop, ← split] at silent
      · rw [split]
        exact (not_namedIn_iff other rows name).mp (unnamed other member)
    · rw [List.map_take, List.map_drop, ← split]
      exact includes_at listed
  · obtain ⟨number, line, listed, located, read, silent⟩ := (getElem?_macros_iff_row text uri name _).mp found
    rw [split, List.getElem?_map] at listed
    obtain ⟨row, there, rfl⟩ := Option.map_eq_some_iff.mp listed
    refine ⟨number, row, there, located, read, ?_⟩
    rwa [not_namedIn_iff, List.map_drop, ← split]
  · obtain ⟨number, line, listed, located, directive, other, read, silent, unnamed⟩ :=
      (getElem?_labels_iff_row text uri name _).mp found
    rw [split, List.getElem?_map] at listed
    obtain ⟨row, there, rfl⟩ := Option.map_eq_some_iff.mp listed
    refine ⟨number, row, there, located, directive, other, read, ?_, fun other member => ?_⟩
    · rwa [not_namedIn_iff, List.map_drop, ← split]
    · rw [not_namedIn_iff, ← split]
      exact unnamed other member

theorem cut_sequence_lines_apart :
    let uri := Uri.ofPath (.ofString "/a.h")
    let line := "#define A 1".toList
    let bytes := [0xe2, 0x82, 0x0a] ++ Utf8.encode line ++ [0x0d, 0x80, 0x0d, 0x0a, 0xf0]
    let machine : Machine :=
      ⟨Disk.empty.write (.ofString "/a.h") bytes, .ofString "/", .ofString "/"⟩
    uri.toPath? = some (.ofString "/a.h") ∧ machine.read? (.ofString "/a.h") = some bytes ∧
      (byteLines bytes)[1]? = some (Utf8.encode line) ∧
      (scan (Utf8.decodeString bytes) uri).macros["A"]? = some ⟨"1", .new uri 1⟩ := by
  intro uri line bytes machine
  have backed : uri.toPath? = some (.ofString "/a.h") := by decide +kernel
  have readable : machine.read? (.ofString "/a.h") = some bytes := by decide +kernel
  have valid : (byteLines bytes)[1]? = some (Utf8.encode line) := by decide +kernel
  have read : Source.definition? line = some ("A".toList, "1".toList) := by decide +kernel
  have last : ¬NamedIn .define ((byteLines bytes).drop 2) "A" := by
    simp only [not_namedIn_iff, ← Directive.name?_eq_some_iff]
    decide +kernel
  obtain ⟨_, _, valids, _⟩ := load_lines_apart .empty backed readable
  exact ⟨backed, readable, valid, (valids 1 line valid).1 "A" "1" read last⟩

end Cache

end AsmIndex
