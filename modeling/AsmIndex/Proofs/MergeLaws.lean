import AsmIndex.Proofs.Layers
import Mathlib.Data.List.Dedup

namespace AsmIndex

theorem findSome?_reverse_dedup {α β : Type} [DecidableEq α] (items : List α) (pick : α → Option β) :
    items.dedup.reverse.findSome? pick = items.reverse.findSome? pick := by
  induction items with
  | nil => rfl
  | cons item items ih =>
    rw [List.reverse_cons, List.findSome?_append]
    by_cases again : item ∈ items
    · rw [List.dedup_cons_of_mem again, ih]
      cases later : items.reverse.findSome? pick with
      | some value => rfl
      | none =>
        -- the item itself is one of those that give nothing
        have nothing := List.findSome?_eq_none_iff.mp later item (List.mem_reverse.mpr again)
        simp [nothing]
    · rw [List.dedup_cons_of_notMem again, List.reverse_cons, List.findSome?_append, ih]

namespace Entry

/-- The entry without the dependencies that are listed again later. -/
def condensed (entry : Entry) : Entry :=
  { entry with dependencies := entry.dependencies.dedup }

theorem condensed_condensed (entry : Entry) : entry.condensed.condensed = entry.condensed := by
  simp [condensed, List.dedup_idem]

theorem mem_dependencies_of_condensed {entry other : Entry} (same : other.condensed = entry.condensed)
    (next : Uri) : next ∈ other.dependencies ↔ next ∈ entry.dependencies := by
  have listed : other.dependencies.dedup = entry.dependencies.dedup := congrArg Entry.dependencies same
  rw [← List.mem_dedup, listed, List.mem_dedup]

theorem overlaid_condensed (entry : Entry) (layer : Uri → SymbolTable) :
    entry.condensed.overlaid layer = entry.overlaid layer := by
  -- Later layers win, so laying the same one down twice comes to laying it down the second time only.
  have macros : (entry.condensed.overlaid layer).macros = (entry.overlaid layer).macros := by
    apply Std.ExtTreeMap.ext_getElem?
    intro name
    change (entry.dependencies.dedup.foldl _ _)[name]? = (entry.dependencies.foldl _ _)[name]?
    rw [getElem?_overlay, getElem?_overlay, findSome?_reverse_dedup]
    rfl
  exact congrArg (SymbolTable.mk · entry.table.labels) macros

theorem overlaid_congr_of_condensed {entry held : Entry} {layer other : Uri → SymbolTable}
    (alike : held.condensed = entry.condensed)
    (same : ∀ next ∈ entry.dependencies, other next = layer next) :
    held.overlaid other = entry.overlaid layer := by
  calc held.overlaid other
      = held.condensed.overlaid other := (held.overlaid_condensed other).symm
    _ = entry.condensed.overlaid other := by rw [alike]
    _ = entry.overlaid other := entry.overlaid_condensed other
    _ = entry.overlaid layer := overlaid_congr same

end Entry

namespace View

theorem depends_iff_mem {view : View} {source : Uri} {dependencies : List Uri}
    (listed : (view source).map Entry.dependencies = some dependencies) (next : Uri) :
    view.Depends source next ↔ next ∈ dependencies := by
  obtain ⟨entry, found, rfl⟩ := Option.map_eq_some_iff.mp listed
  simp [Depends, found]

/-- In every document that can be reached, the other view holds the same up to dependencies that are
listed again later. -/
def AlikeFrom (view other : View) (uri : Uri) : Prop :=
  ∀ place, view.Reaches uri place → (other place).map Entry.condensed = (view place).map Entry.condensed

theorem AlikeFrom.eq_some {view other : View} {uri place : Uri} {entry : Entry}
    (alike : view.AlikeFrom other uri) (reaches : view.Reaches uri place)
    (found : view place = some entry) : ∃ held, other place = some held ∧ held.condensed = entry.condensed := by
  have same := alike place reaches
  rw [found] at same
  exact Option.map_eq_some_iff.mp same

theorem AlikeFrom.eq_none {view other : View} {uri place : Uri} (alike : view.AlikeFrom other uri)
    (reaches : view.Reaches uri place) (missing : view place = none) : other place = none := by
  have same := alike place reaches
  rw [missing] at same
  exact Option.map_eq_none_iff.mp same

theorem AlikeFrom.onward {view other : View} {uri next : Uri} {entry : Entry}
    (alike : view.AlikeFrom other uri) (found : view uri = some entry)
    (taken : next ∈ entry.dependencies) : view.AlikeFrom other next :=
  fun place reaches => alike place (.head ⟨entry, found, taken⟩ reaches)

theorem Merges.congr {view other : View} {path others : List Uri} {uri : Uri} {table : SymbolTable}
    (merges : view.Merges path uri table) (alike : view.AlikeFrom other uri)
    (barred : ∀ place, view.Reaches uri place → (place ∈ others ↔ place ∈ path)) :
    other.Merges others uri table := by
  induction merges generalizing others with
  | barred nothing => exact .barred (nothing.imp (barred _ .refl).mpr (alike.eq_none .refl))
  | @entered path uri entry layer new found _ ih =>
    obtain ⟨held, stored, condensed⟩ := alike.eq_some .refl found
    have otherNew : uri ∉ others := fun member => new ((barred uri .refl).mp member)
    rw [← Entry.overlaid_congr_of_condensed condensed fun _ _ => rfl]
    refine .entered layer otherNew stored fun next listed => ?_
    have taken := (Entry.mem_dependencies_of_condensed condensed next).mp listed
    refine ih next taken (alike.onward found taken) fun place reaches => ?_
    rw [List.mem_cons, List.mem_cons, barred place (.head ⟨entry, found, taken⟩ reaches)]

end View

namespace Cache

theorem get_congr_alike {cache other : Cache} {machine machine' : Machine} {uri : Uri}
    (alike : (cache.view machine).AlikeFrom (other.view machine') uri) :
    (other.get machine' uri).1 = (cache.get machine uri).1 :=
  ((cache.merges_get machine uri).congr alike fun _ _ => .rfl).unique (other.merges_get machine' uri)

theorem layer_eq_get {cache : Cache} {machine : Machine} {uri : Uri} {path : List Uri}
    (away : ∀ place ∈ path, ¬ (cache.view machine).Reaches uri place) :
    cache.layer machine path uri = (cache.get machine uri).1 := by
  -- Below a document that leads to nothing on the path, the path plays no part: what is merged for it is a lookup of
  -- its own.
  refine ((cache.merges_get machine uri).congr (fun _ _ => rfl) fun place reaches => ?_).unique
    (cache.merges_layer machine path uri)
  exact iff_of_false (fun member => away place member reaches) List.not_mem_nil

/-- A document that none of its includes leads back to shows its own macros with those of the lookups of its
includes laid over them in order, so the last include that shows a name decides. -/
theorem macros_get_off_cycles {cache : Cache} {machine : Machine} {uri : Uri} {entry : Entry}
    (found : cache.view machine uri = some entry)
    (offCycles : ∀ next ∈ entry.dependencies, ¬ (cache.view machine).Reaches next uri) :
    (cache.get machine uri).1.macros =
      entry.dependencies.foldl (fun macros next => macros ∪ (cache.get machine next).1.macros)
        entry.table.macros ∧
    ∀ name : String, (cache.get machine uri).1.macros[name]? =
      (entry.dependencies.reverse.findSome? fun next => (cache.get machine next).1.macros[name]?).or
        entry.table.macros[name]? := by
  have layers : ∀ next ∈ entry.dependencies,
      cache.layer machine [uri] next = (cache.get machine next).1 := by
    intro next taken
    refine layer_eq_get fun place member => ?_
    obtain rfl := List.mem_singleton.mp member
    exact offCycles next taken
  have whole : (cache.get machine uri).1 = entry.overlaid fun next => (cache.get machine next).1 := by
    rw [get_eq_layer, layer_of_view List.not_mem_nil found]
    exact Entry.overlaid_congr layers
  have macros := congrArg SymbolTable.macros whole
  refine ⟨macros, fun name => ?_⟩
  rw [macros]
  exact getElem?_overlay entry.dependencies (fun next => (cache.get machine next).1.macros)
    entry.table.macros name

theorem mutual_headers_off_cycles :
    let machine : Machine :=
      ⟨(Disk.empty.write (.ofString "/a.h")
          (Utf8.encodeString "#include \"b.h\"\n#define X 1\n")).write
        (.ofString "/b.h") (Utf8.encodeString "#include \"a.h\"\n#define X 2\n"),
        .ofString "/", .ofString "/"⟩
    let a := Uri.ofPath (.ofString "/a.h")
    let b := Uri.ofPath (.ofString "/b.h")
    let main := Uri.ofPath (.ofString "/m.S")
    let text := "#include \"a.h\"\n#include \"b.h\"\n#define X 0\n"
    let cache := Cache.empty.update machine main text
    let entry := Cache.empty.scanEntry machine main text
    cache.view machine main = some entry ∧ entry.dependencies = [a, b] ∧
      (cache.view machine).Depends a b ∧ (cache.view machine).Depends b a ∧
      (∀ next ∈ entry.dependencies, ¬ (cache.view machine).Reaches next main) ∧
      (cache.get machine main).1.macros =
        entry.table.macros ∪ (cache.get machine a).1.macros ∪ (cache.get machine b).1.macros := by
  intro machine a b main text cache entry
  have found : cache.view machine main = some entry := view_update_self _ machine main text
  have both : entry.dependencies = [a, b] := by decide +kernel
  have fromA : (cache.view machine a).map Entry.dependencies = some [b] := by decide +kernel
  have fromB : (cache.view machine b).map Entry.dependencies = some [a] := by decide +kernel
  have offCycles : ∀ next ∈ entry.dependencies, ¬ (cache.view machine).Reaches next main := by
    intro next taken reaches
    have stays : ∀ place, (cache.view machine).Reaches next place → place ∈ [a, b] := by
      intro place below
      induction below with
      | refl => exact both ▸ taken
      | tail _ depends ih =>
        rcases List.mem_pair.mp ih with rfl | rfl
        · simp [List.mem_singleton.mp ((View.depends_iff_mem fromA _).mp depends)]
        · simp [List.mem_singleton.mp ((View.depends_iff_mem fromB _).mp depends)]
    exact absurd (stays main reaches) (by decide +kernel)
  refine ⟨found, both, (View.depends_iff_mem fromA b).mpr (by simp),
    (View.depends_iff_mem fromB a).mpr (by simp), offCycles, ?_⟩
  rw [(macros_get_off_cycles found offCycles).1, both]
  rfl

def condensed (cache : Cache) : Cache :=
  { cache with entries := cache.entries.map fun _ entry => entry.condensed }

theorem entry?_condensed (cache : Cache) (uri : Uri) :
    Cache.entry? cache.condensed uri = (cache.entry? uri).map Entry.condensed :=
  Std.ExtTreeMap.getElem?_map

theorem alikeFrom_condensed (cache : Cache) (machine : Machine) (uri : Uri) :
    (cache.view machine).AlikeFrom (cache.condensed.view machine) uri := by
  intro place _
  cases stored : cache.entry? place with
  | some entry =>
    have storedCondensed : Cache.entry? cache.condensed place = some entry.condensed := by
      rw [entry?_condensed, stored]
      rfl
    rw [view, view, effective?_of_stored stored, effective?_of_stored storedCondensed]
    exact congrArg some entry.condensed_condensed
  | none =>
    have missing : Cache.entry? cache.condensed place = none := by
      rw [entry?_condensed, stored]
      rfl
    rw [view, view, effective?_of_missing stored, effective?_of_missing missing]
    exact congrArg _ (load?_congr rfl machine place)

/-- Only the last occurrence of a dependency counts, in every document at once. -/
theorem get_condensed (cache : Cache) (machine : Machine) (uri : Uri) :
    (cache.condensed.get machine uri).1 = (cache.get machine uri).1 :=
  get_congr_alike (cache.alikeFrom_condensed machine uri)

end Cache

end AsmIndex
