import AsmIndex.Editor.Search
import AsmIndex.Proofs.Outline
import Mathlib.Data.List.Perm.Basic

namespace AsmIndex

namespace Search

/-- The same items up to their order inside runs of equal score: only neighbours of equal score change places. -/
inductive Rearranged {α : Type} (score : α → Nat) : List α → List α → Prop
  | nil : Rearranged score [] []
  | cons (a : α) {items others : List α} :
      Rearranged score items others → Rearranged score (a :: items) (a :: others)
  | swap {a b : α} (same : score a = score b) (items : List α) :
      Rearranged score (a :: b :: items) (b :: a :: items)
  | trans {items others rest : List α} :
      Rearranged score items others → Rearranged score others rest → Rearranged score items rest

namespace Rearranged

variable {α : Type} {score : α → Nat}

theorem refl (items : List α) : Rearranged score items items := by
  induction items with
  | nil => exact .nil
  | cons a items ih => exact .cons a ih

theorem move_back {a : α} {front : List α} (same : ∀ b ∈ front, score a = score b) (back : List α) :
    Rearranged score (a :: (front ++ back)) (front ++ a :: back) := by
  induction front with
  | nil => exact refl _
  | cons b front ih =>
    have later := ih fun c member => same c (List.mem_cons_of_mem _ member)
    exact (Rearranged.swap (same b (List.mem_cons_self ..)) _).trans (later.cons b)

theorem of_perm {items others : List α} (perm : items.Perm others)
    (sorted : items.Pairwise fun a b => score b ≤ score a)
    (sortedOthers : others.Pairwise fun a b => score b ≤ score a) : Rearranged score items others := by
  induction items generalizing others with
  | nil =>
    rw [← perm.nil_eq]
    exact .nil
  | cons a items ih =>
    obtain ⟨front, back, rfl⟩ := List.append_of_mem (perm.mem_iff.mp (List.mem_cons_self ..))
    obtain ⟨best, sorted⟩ := List.pairwise_cons.mp sorted
    have rest : items.Perm (front ++ back) := (perm.trans List.perm_middle).cons_inv
    have sortedRest : (front ++ back).Pairwise fun a b => score b ≤ score a :=
      sortedOthers.sublist ((List.sublist_cons_self ..).append_left front)
    -- nothing scores more than the first item here, and nothing in front of it scores less there
    have level : ∀ b ∈ front, score a = score b := by
      intro b member
      have more := (List.pairwise_append.mp sortedOthers).2.2 b member a (List.mem_cons_self ..)
      have less := best b (rest.mem_iff.mpr (List.mem_append_left _ member))
      omega
    exact ((ih rest sorted sortedRest).cons a).trans (move_back level back)

end Rearranged

namespace Hit

theorem standsBefore_iff (hit other : Hit) :
    hit.standsBefore other = true ↔
      other.score < hit.score ∨ hit.score = other.score ∧
        (compare hit.key other.key = .lt ∨
          hit.key = other.key ∧ hit.symbol.location.line ≤ other.symbol.location.line) := by
  simp [standsBefore, Ordering.isLT_iff_eq_lt]

theorem standsBefore_trans (first second third : Hit) (before : first.standsBefore second = true)
    (later : second.standsBefore third = true) : first.standsBefore third = true := by
  rw [standsBefore_iff] at *
  rcases before with more | ⟨score, before⟩ <;> rcases later with more' | ⟨score', later⟩
  · exact .inl (by omega)
  · exact .inl (by omega)
  · exact .inl (by omega)
  · refine .inr ⟨by omega, ?_⟩
    rcases before with less | ⟨key, line⟩ <;> rcases later with less' | ⟨key', line'⟩
    · exact .inl (Std.TransCmp.lt_trans less less')
    · exact .inl (key' ▸ less)
    · exact .inl (key ▸ less')
    · exact .inr ⟨key.trans key', UInt32.le_trans line line'⟩

theorem standsBefore_total (hit other : Hit) :
    (hit.standsBefore other || other.standsBefore hit) = true := by
  rw [Bool.or_eq_true, standsBefore_iff, standsBefore_iff]
  have scores : other.score < hit.score ∨ hit.score = other.score ∨ hit.score < other.score := by omega
  rcases scores with more | same | less
  · exact .inl (.inl more)
  · cases keys : compare hit.key other.key with
    | lt => exact .inl (.inr ⟨same, .inl rfl⟩)
    | gt => exact .inr (.inr ⟨same.symm, .inl (Std.OrientedCmp.lt_of_gt keys)⟩)
    | eq =>
      have key : hit.key = other.key := Std.LawfulEqCmp.eq_of_compare keys
      rcases UInt32.le_total hit.symbol.location.line other.symbol.location.line with line | line
      · exact .inl (.inr ⟨same, .inr ⟨key, line⟩⟩)
      · exact .inr (.inr ⟨same.symm, .inr ⟨key.symm, line⟩⟩)
  · exact .inr (.inl less)

end Hit

theorem map_symbol_scored (score : String → Nat) (symbols : List Symbol) :
    (scored score symbols).map Hit.symbol = symbols.filter fun symbol => 0 < score symbol.name := by
  rw [scored, List.filter_map, List.map_map]
  exact List.map_id _

theorem score_of_mem_scored {score : String → Nat} {symbols : List Symbol} {hit : Hit}
    (member : hit ∈ scored score symbols) : hit.score = score hit.symbol.name := by
  obtain ⟨symbol, _, rfl⟩ := List.mem_map.mp (List.mem_filter.mp member).1
  rfl

theorem mergeSort_scored {le : Hit → Hit → Bool} (trans : ∀ a b c, le a b = true → le b c = true → le a c = true)
    (total : ∀ a b, (le a b || le b a) = true) (descends : ∀ a b, le a b = true → b.score ≤ a.score)
    (score : String → Nat) (symbols : List Symbol) :
    let found := ((scored score symbols).mergeSort le).map Hit.symbol
    found.Perm (symbols.filter fun symbol => 0 < score symbol.name) ∧
      found.Pairwise fun symbol next => score next.name ≤ score symbol.name := by
  intro found
  constructor
  · rw [← map_symbol_scored]
    exact (List.mergeSort_perm _ le).map _
  · refine List.pairwise_map.mpr ((List.pairwise_mergeSort trans total _).imp_of_mem ?_)
    intro hit next member later before
    rw [← score_of_mem_scored (List.mem_mergeSort.mp member),
      ← score_of_mem_scored (List.mem_mergeSort.mp later)]
    exact descends hit next before

theorem searchWith_ordered (matcher : String → String → Nat) (cache : Cache) (query : String) :
    let found := searchWith matcher cache query
    found.Perm ((symbols cache).filter fun symbol => 0 < matcher query symbol.name) ∧
      found.Pairwise fun symbol next => matcher query next.name ≤ matcher query symbol.name := by
  refine mergeSort_scored Hit.standsBefore_trans Hit.standsBefore_total ?_ (matcher query) (symbols cache)
  intro hit other before
  rcases (hit.standsBefore_iff other).mp before with more | ⟨same, _⟩ <;> omega

/-- The symbols that score, sorted by score alone. Those of equal score stay in the order in which they come. -/
def ranked (score : String → Nat) (symbols : List Symbol) : List Symbol :=
  ((scored score symbols).mergeSort fun a b => b.score ≤ a.score).map Hit.symbol

theorem ranked_ordered (score : String → Nat) (symbols : List Symbol) :
    (ranked score symbols).Perm (symbols.filter fun symbol => 0 < score symbol.name) ∧
      (ranked score symbols).Pairwise fun symbol next => score next.name ≤ score symbol.name := by
  refine mergeSort_scored ?_ ?_ ?_ score symbols
  · intro a b c
    simp only [decide_eq_true_eq]
    omega
  · intro a b
    simpa using Nat.le_total b.score a.score
  · intro a b
    exact of_decide_eq_true

end Search

namespace Symbol

def ofMacro (entry : String × MacroDefinition) : Symbol where
  name := entry.1
  kind := .definedMacro
  detail? := if entry.2.value = "" then none else some entry.2.value
  location := entry.2.location

def ofLabel (entry : String × Location) : Symbol where
  name := entry.1
  kind := .label
  detail? := none
  location := entry.2

end Symbol

namespace SymbolTable

def symbol? (table : SymbolTable) (kind : SymbolKind) (name : String) : Option Symbol :=
  match kind with
  | .definedMacro => table.macros[name]?.map fun definition => .ofMacro (name, definition)
  | .label => table.labels[name]?.map fun location => .ofLabel (name, location)

theorem symbol?_eq_some_iff (table : SymbolTable) (kind : SymbolKind) (name : String) (symbol : Symbol) :
    table.symbol? kind name = some symbol ↔
      symbol ∈ table.symbols ∧ symbol.kind = kind ∧ symbol.name = name := by
  rw [mem_symbols_iff]
  constructor
  · intro found
    cases kind with
    | definedMacro =>
      obtain ⟨definition, own, rfl⟩ := Option.map_eq_some_iff.mp found
      exact ⟨.inl ⟨definition, own, rfl⟩, rfl, rfl⟩
    | label =>
      obtain ⟨location, own, rfl⟩ := Option.map_eq_some_iff.mp found
      exact ⟨.inr ⟨own, rfl⟩, rfl, rfl⟩
  · rintro ⟨⟨definition, own, same⟩ | ⟨own, same⟩, rfl, rfl⟩
    · have kind : symbol.kind = .definedMacro := congrArg Symbol.kind same
      rw [kind]
      exact Option.map_eq_some_iff.mpr ⟨definition, own, same.symm⟩
    · have kind : symbol.kind = .label := congrArg Symbol.kind same
      rw [kind]
      exact Option.map_eq_some_iff.mpr ⟨symbol.location, own, same.symm⟩

/-- An order in which the symbols of a table come up: the macros in some order, then the labels in some order. -/
def ListedAs (table : SymbolTable) (row : List Symbol) : Prop :=
  ∃ (macros : List (String × MacroDefinition)) (labels : List (String × Location)),
    macros.Perm table.macros.toList ∧ labels.Perm table.labels.toList ∧
      row = macros.map .ofMacro ++ labels.map .ofLabel

theorem listedAs_symbols (table : SymbolTable) : table.ListedAs table.symbols :=
  ⟨_, _, .refl _, .refl _, rfl⟩

theorem ListedAs.perm {table : SymbolTable} {row : List Symbol} (listed : table.ListedAs row) :
    row.Perm table.symbols := by
  obtain ⟨macros, labels, macroWalk, labelWalk, rfl⟩ := listed
  exact (macroWalk.map _).append (labelWalk.map _)

end SymbolTable

namespace Search

/-- Where a symbol is defined: in a document, under a name among those of a kind. -/
structure Place where
  uri : Uri
  kind : SymbolKind
  name : String
deriving DecidableEq

end Search

namespace Cache

open Search

def symbolAt? (cache : Cache) (place : Place) : Option Symbol :=
  (cache.entry? place.uri).bind fun entry => entry.table.symbol? place.kind place.name

def ListedAs (cache : Cache) (symbols : List Symbol) : Prop :=
  ∃ (documents : List (Uri × Entry)) (row : Uri → List Symbol), documents.Perm cache.entries.toList ∧
    (∀ document ∈ documents, document.2.table.ListedAs (row document.1)) ∧
    symbols = documents.flatMap fun document => row document.1

theorem ListedAs.perm {cache : Cache} {symbols : List Symbol} (listed : cache.ListedAs symbols) :
    symbols.Perm (Search.symbols cache) := by
  obtain ⟨documents, row, walk, rows, rfl⟩ := listed
  exact List.Perm.flatMap walk fun document member => (rows document member).perm

def placed (cache : Cache) : List (Place × Symbol) :=
  cache.entries.toList.flatMap fun document =>
    document.2.table.symbols.map fun symbol => (⟨document.1, symbol.kind, symbol.name⟩, symbol)

theorem map_snd_placed (cache : Cache) : cache.placed.map Prod.snd = Search.symbols cache := by
  simp [placed, Search.symbols, List.map_flatMap, List.map_map, Function.comp_def]

theorem mem_placed_iff (cache : Cache) (place : Place) (symbol : Symbol) :
    (place, symbol) ∈ cache.placed ↔ cache.symbolAt? place = some symbol := by
  unfold placed symbolAt?
  rw [List.mem_flatMap, Option.bind_eq_some_iff]
  constructor
  · rintro ⟨⟨uri, entry⟩, stored, member⟩
    obtain ⟨own, inside, same⟩ := List.mem_map.mp member
    obtain ⟨rfl, rfl⟩ := Prod.mk.inj same
    exact ⟨entry, Std.ExtTreeMap.mem_toList_iff_getElem?_eq_some.mp stored,
      (entry.table.symbol?_eq_some_iff _ _ own).mpr ⟨inside, rfl, rfl⟩⟩
  · rintro ⟨entry, stored, found⟩
    obtain ⟨inside, kind, name⟩ := (entry.table.symbol?_eq_some_iff _ _ symbol).mp found
    refine ⟨(place.uri, entry), Std.ExtTreeMap.mem_toList_iff_getElem?_eq_some.mpr stored,
      List.mem_map.mpr ⟨symbol, inside, ?_⟩⟩
    rw [kind, name]

theorem nodup_placed (cache : Cache) : (cache.placed.map Prod.fst).Nodup := by
  refine List.pairwise_map.mpr (List.pairwise_flatMap.mpr ⟨?_, ?_⟩)
  · rintro ⟨uri, entry⟩ _
    refine List.pairwise_map.mpr (entry.table.nodup_symbols.imp_of_mem ?_)
    intro symbol other member again distinct same
    exact distinct (SymbolTable.eq_of_name member again (congrArg Place.kind same) (congrArg Place.name same))
  · refine Std.ExtTreeMap.distinct_keys_toList.imp ?_
    rintro ⟨uri, entry⟩ ⟨other, entry'⟩ distinct x member y again same
    obtain ⟨_, _, rfl⟩ := List.mem_map.mp member
    obtain ⟨_, _, rfl⟩ := List.mem_map.mp again
    exact distinct (Std.LawfulEqCmp.compare_eq_iff_eq.mpr (congrArg Place.uri same))

theorem name_of_mem_placed {cache : Cache} {item : Place × Symbol} (member : item ∈ cache.placed) :
    item.2.name = item.1.name := by
  obtain ⟨entry, _, found⟩ := Option.bind_eq_some_iff.mp ((cache.mem_placed_iff item.1 item.2).mp member)
  exact ((entry.table.symbol?_eq_some_iff _ _ _).mp found).2.2

theorem exists_scoring_places (cache : Cache) (score : String → Nat) :
    ∃ places : List Place, places.Nodup ∧
      (∀ place, place ∈ places ↔ (∃ symbol, cache.symbolAt? place = some symbol) ∧ 0 < score place.name) ∧
      ((symbols cache).filter fun symbol => 0 < score symbol.name).map some = places.map cache.symbolAt? := by
  let scoring := cache.placed.filter fun item => 0 < score item.1.name
  refine ⟨scoring.map Prod.fst, ?_, ?_, ?_⟩
  · exact cache.nodup_placed.sublist ((List.filter_sublist ..).map _)
  · intro place
    simp only [scoring, List.mem_map, List.mem_filter, decide_eq_true_eq, Prod.exists, exists_and_right,
      exists_eq_right, mem_placed_iff]
  · have filtered : (symbols cache).filter (fun symbol => 0 < score symbol.name) = scoring.map Prod.snd := by
      rw [← map_snd_placed, List.filter_map]
      refine congrArg _ (List.filter_congr ?_)
      intro item member
      rw [Function.comp_apply, name_of_mem_placed member]
    rw [filtered, List.map_map, List.map_map]
    refine List.map_congr_left ?_
    intro item member
    exact ((cache.mem_placed_iff item.1 item.2).mp (List.mem_filter.mp member).1).symm

/-- With every matcher a search lists each place whose name scores once, and the best scores first. For caches with
the same entries, however they came to be and in whatever order their maps are walked, what a sort by score alone
gives is the same list up to the order inside runs of equal score. -/
theorem searchWith_ranks_places (matcher : String → String → Nat) (cache : Cache) (query : String) :
    let score (symbol : Symbol) := matcher query symbol.name
    let found := searchWith matcher cache query
    (∃ places : List Place, places.Nodup ∧
      (∀ place, place ∈ places ↔
        (∃ symbol, cache.symbolAt? place = some symbol) ∧ 0 < matcher query place.name) ∧
      (found.map some).Perm (places.map cache.symbolAt?)) ∧
    (found.Pairwise fun symbol next => score next ≤ score symbol) ∧
    ∀ other : Cache, (∀ uri, other.entry? uri = cache.entry? uri) →
      ∀ walk again, cache.ListedAs walk → other.ListedAs again →
        Rearranged score (ranked (matcher query) walk) found ∧
        Rearranged score (ranked (matcher query) walk) (ranked (matcher query) again) := by
  intro score found
  obtain ⟨listed, ordered⟩ := searchWith_ordered matcher cache query
  obtain ⟨places, distinct, scoring, symbols⟩ := cache.exists_scoring_places (matcher query)
  have each : (found.map some).Perm (places.map cache.symbolAt?) := by
    rw [← symbols]
    exact listed.map some
  refine ⟨⟨places, distinct, scoring, each⟩, ordered, ?_⟩
  intro other same walk again walked walkedAgain
  have entries : other.entries = cache.entries := Std.ExtTreeMap.ext_getElem? same
  have common : again.Perm (Search.symbols cache) := by
    have perm := walkedAgain.perm
    rwa [Search.symbols, entries] at perm
  obtain ⟨perm, sorted⟩ := ranked_ordered (matcher query) walk
  obtain ⟨permAgain, sortedAgain⟩ := ranked_ordered (matcher query) again
  have whole := perm.trans (walked.perm.filter _)
  exact ⟨.of_perm (whole.trans listed.symm) sorted ordered,
    .of_perm (whole.trans (permAgain.trans (common.filter _)).symm) sorted sortedAgain⟩

theorem shared_name_ranks_places :
    let machine : Machine := ⟨Disk.empty, .ofString "/", .ofString "/"⟩
    let first := Uri.ofPath (.ofString "/m.S")
    let second := Uri.ofPath (.ofString "/n.S")
    let cache := (Cache.empty.update machine first "#define A 1\nB:\n").update machine second "A:\n"
    let other := (Cache.empty.update machine second "A:\n").update machine first "#define A 1\nB:\n"
    let asMacro : Symbol := ⟨"A", .definedMacro, some "1", ⟨first, 0⟩⟩
    let asLabel : Symbol := ⟨"A", .label, none, ⟨second, 0⟩⟩
    let unasked : Symbol := ⟨"B", .label, none, ⟨first, 1⟩⟩
    let score (symbol : Symbol) := Fuzzy.score "a" symbol.name
    (∀ uri, other.entry? uri = cache.entry? uri) ∧
      cache.ListedAs [asMacro, unasked, asLabel] ∧ other.ListedAs [asLabel, asMacro, unasked] ∧
      search cache "a" = [asMacro, asLabel] ∧
      ranked (Fuzzy.score "a") [asLabel, asMacro, unasked] = [asLabel, asMacro] ∧
      Rearranged score (ranked (Fuzzy.score "a") [asMacro, unasked, asLabel])
        (ranked (Fuzzy.score "a") [asLabel, asMacro, unasked]) := by
  intro machine first second cache other asMacro asLabel unasked score
  let rows : List (Uri × Entry) :=
    [(first, Cache.empty.scanEntry machine first "#define A 1\nB:\n"),
      (second, Cache.empty.scanEntry machine second "A:\n")]
  let row (uri : Uri) : List Symbol := if uri = first then [asMacro, unasked] else [asLabel]
  have stored : cache.entries.toList = rows := by decide +kernel
  have storedOther : other.entries.toList = rows := by decide +kernel
  have same : ∀ uri, other.entry? uri = cache.entry? uri := by
    intro uri
    have entries : other.entries = cache.entries :=
      Std.ExtTreeMap.toList_inj.mp (storedOther.trans stored.symm)
    exact congrArg (fun entries : UriMap Entry => entries[uri]?) entries
  have tables : ∀ document ∈ rows, document.2.table.ListedAs (row document.1) := by
    have plain : ∀ document ∈ rows, document.2.table.symbols = row document.1 := by decide +kernel
    intro document member
    exact plain document member ▸ document.2.table.listedAs_symbols
  have walk : cache.ListedAs [asMacro, unasked, asLabel] := by
    refine ⟨rows, row, ?_, tables, by decide +kernel⟩
    rw [stored]
  have again : other.ListedAs [asLabel, asMacro, unasked] := by
    refine ⟨rows.reverse, row, ?_, fun document member => tables document (List.mem_reverse.mp member),
      by decide +kernel⟩
    rw [storedOther]
    exact rows.reverse_perm
  refine ⟨same, walk, again, ?_, ?_, ?_⟩
  · have hits : scored (Fuzzy.score "a") (Search.symbols cache) =
        [⟨Fuzzy.score "a" "A", asMacro⟩, ⟨Fuzzy.score "a" "A", asLabel⟩] := by
      rw [Search.symbols, stored]
      decide +kernel
    rw [search, searchWith, Search.hits, hits, List.mergeSort_of_pairwise (by decide +kernel)]
    rfl
  · have hits : scored (Fuzzy.score "a") [asLabel, asMacro, unasked] =
        [⟨Fuzzy.score "a" "A", asLabel⟩, ⟨Fuzzy.score "a" "A", asMacro⟩] := by
      decide +kernel
    rw [ranked, hits, List.mergeSort_of_pairwise (by simp)]
    rfl
  · exact ((searchWith_ranks_places Fuzzy.score cache "a").2.2 other same _ _ walk again).2

end Cache

end AsmIndex
