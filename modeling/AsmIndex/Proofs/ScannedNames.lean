import AsmIndex.Proofs.Lookup
import AsmIndex.Proofs.ScannedLines

namespace AsmIndex

namespace Source

theorem LongestName.not_mem {first more : Char → Bool} {name rest : List Char} {c : Char}
    (longest : LongestName first more name rest) (firstOther : first c = false) (moreOther : more c = false) :
    c ∉ name := by
  obtain ⟨d, tail, rfl, starts, inside⟩ := longest.chars
  intro member
  rcases List.mem_cons.mp member with rfl | member
  · rw [firstOther] at starts
    cases starts
  · rw [inside c member] at moreOther
    cases moreOther

theorem Directive.percent_not_mem {directive : Directive} {line name : List Char}
    (read : directive.name? line = some name) : '%' ∉ name := by
  rw [Directive.name?_eq_some_iff] at read
  cases directive with
  | define =>
    obtain ⟨_, _, _, _, _, _, _, _, _, longest⟩ := read
    exact longest.not_mem (by decide) (by decide +kernel)
  | external =>
    obtain ⟨_, _, _, _, _, _, _, longest⟩ := read
    exact longest.not_mem (by decide) (by decide)
  | label =>
    obtain ⟨_, _, _, _, _, _, longest⟩ := read
    exact longest.not_mem (by decide) (by decide)
  | segment =>
    obtain ⟨_, _, _, _, _, _, _, longest⟩ := read
    exact longest.not_mem (by decide) (by decide)

end Source

structure SymbolTable.Unmarked (table : SymbolTable) : Prop where
  macros : ∀ name, name ∈ table.macros → '%' ∉ name.toList
  labels : ∀ name, name ∈ table.labels → '%' ∉ name.toList

theorem unmarked_scan (text : String) (uri : Uri) : (scan text uri).Unmarked := by
  constructor
  · intro name member
    obtain ⟨definition, found⟩ :=
      Option.isSome_iff_exists.mp (Std.ExtTreeMap.mem_iff_isSome_getElem?.mp member)
    obtain ⟨_, _, line, _, _, read⟩ := Scan.macros_broughtIn found
    exact Source.Directive.percent_not_mem read
  · intro name member
    obtain ⟨location, found⟩ :=
      Option.isSome_iff_exists.mp (Std.ExtTreeMap.mem_iff_isSome_getElem?.mp member)
    obtain ⟨directive, _, _, _, line, _, _, read⟩ := Scan.labels_broughtIn found
    exact Source.Directive.percent_not_mem read

namespace Cache

theorem Built.unmarked_get {cache : Cache} (built : Built cache) (machine : Machine) (uri : Uri) :
    (cache.get machine uri).1.Unmarked := by
  have shows := cache.shows_get machine uri
  constructor
  · intro name member
    obtain ⟨place, _, defines⟩ := (shows.mem_macros_iff name).mp member
    obtain ⟨entry, found, own⟩ := (View.definition?_ne_none_iff _ place name).mp defines
    obtain ⟨past, known, text, rfl⟩ := built.exists_scanEntry_of_view found
    exact (unmarked_scan text place).macros name own
  · intro name member
    unfold View.Shows at shows
    cases found : cache.view machine uri with
    | none =>
      simp only [found] at shows
      rw [shows] at member
      exact absurd member Std.ExtTreeMap.not_mem_empty
    | some entry =>
      simp only [found] at shows
      obtain ⟨past, known, text, rfl⟩ := built.exists_scanEntry_of_view found
      rw [shows.1] at member
      exact (unmarked_scan text uri).labels name member

end Cache

end AsmIndex
