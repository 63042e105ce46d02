import AsmIndex.Proofs.Lookup
import AsmIndex.Uri.Reader

namespace AsmIndex

namespace Uri

theorem closeDrive_closeDrive (bytes : Bytes) : closeDrive (closeDrive bytes) = closeDrive bytes := by
  conv => lhs; arg 1; unfold closeDrive
  split
  · split
    · -- behind the slash there is no drive letter left to close
      have slash : Path.slash ≠ 0x3a ∧ Path.slash ≠ 0x7c := by decide
      unfold closeDrive
      simp_all
    · rfl
  · rfl

theorem closeDrive_of_toPath? {uri : Uri} {path : Path} (backed : uri.toPath? = some path) :
    closeDrive path.bytes = path.bytes := by
  unfold toPath? at backed
  split at backed
  · cases backed
  · cases backed
  · split at backed
    · obtain rfl := Option.some.inj backed
      exact closeDrive_closeDrive _
    · cases backed

end Uri

namespace Cache

/-- What a document shows that the lookup comes to along the path. -/
def layer (cache : Cache) (machine : Machine) (path : List Uri) (uri : Uri) : SymbolTable :=
  ((visit? machine path cache uri).getD (.empty, cache)).1

theorem get_eq_layer (cache : Cache) (machine : Machine) (uri : Uri) :
    (cache.get machine uri).1 = cache.layer machine [] uri :=
  rfl

theorem merges_layer (cache : Cache) (machine : Machine) (path : List Uri) (uri : Uri) :
    (cache.view machine).Merges path uri (cache.layer machine path uri) := by
  obtain ⟨budget, table, last, run⟩ := cache.exists_visit machine path uri
  rw [layer, visit?_of_visit run]
  exact (visit_spec rfl .refl run).2

theorem layer_of_view {cache : Cache} {machine : Machine} {uri : Uri} {path : List Uri} {entry : Entry}
    (new : uri ∉ path) (found : cache.view machine uri = some entry) :
    cache.layer machine path uri = entry.overlaid (cache.layer machine (uri :: path)) :=
  (View.Merges.entered _ new found fun next _ => cache.merges_layer machine _ next).unique
    (cache.merges_layer machine path uri)

theorem entry?_update_of_ne {uri place : Uri} (other : place ≠ uri) (cache : Cache) (machine : Machine)
    (text : String) : Cache.entry? (cache.update machine uri text) place = cache.entry? place :=
  (entry?_store _ _ _ _).trans (if_neg other)

theorem view_update_self (cache : Cache) (machine : Machine) (uri : Uri) (text : String) :
    (cache.update machine uri text).view machine uri = some (cache.scanEntry machine uri text) :=
  effective?_of_stored (cache.entry?_update_self machine uri text) machine

theorem view_update_of_ne {uri place : Uri} (other : place ≠ uri) (cache : Cache) (machine : Machine)
    (text : String) :
    (cache.update machine uri text).view machine place = cache.view machine place := by
  have same := entry?_update_of_ne other cache machine text
  have load : (cache.update machine uri text).load? machine place = cache.load? machine place :=
    load?_congr rfl machine place
  simp only [view, effective?, same, load]

theorem update_comm {first second : Uri} (other : first ≠ second) (cache : Cache) (machine : Machine)
    (text more : String) :
    (cache.update machine first text).update machine second more =
      (cache.update machine second more).update machine first text := by
  have entries : ((cache.update machine first text).update machine second more).entries =
      ((cache.update machine second more).update machine first text).entries := by
    refine Std.ExtTreeMap.ext_getElem? fun place => ?_
    change Cache.entry? _ place = Cache.entry? _ place
    simp only [update, entry?_store]
    by_cases here : place = second
    · subst here
      simp [Ne.symm other, scanEntry, store]
    · simp [here, scanEntry, store]
  exact congrArg (Cache.mk · cache.includePaths) entries

theorem mem_dependencies_of_resolve? {cache : Cache} {machine : Machine} {uri : Uri}
    {text filename : String} {path : Path} (listed : filename ∈ Scan.includes text)
    (leads : Include.resolve? machine (uri.toPath?.bind Path.parent?) cache.includePaths filename =
      some path) :
    Uri.ofPath path ∈ (cache.scanEntry machine uri text).dependencies :=
  List.mem_map_of_mem (List.mem_filterMap.mpr ⟨filename, listed, leads⟩)

theorem Built.get_update_of_not_isSettled {cache : Cache} (built : Built cache) {header main : Uri}
    (unsettled : ¬header.IsSettled) (other : header ≠ main) (machine : Machine) (text : String) :
    ((cache.update machine header text).get machine main).1 = (cache.get machine main).1 := by
  refine get_congr fun place reaches => view_update_of_ne ?_ cache machine text
  rintro rfl
  rcases built.isSettled_of_reaches reaches with same | settled
  · exact other same
  · exact unsettled settled

/-- An open header counts for the includes that lead to its file if it was opened under the canonical
identifier of the path. Opened under another identifier of the same path it plays no part in the lookup, and the
include has the entry stored under the canonical identifier, or else the file if it can be read. The order of
opening is free. -/
theorem open_header_layer {cache : Cache} {machine : Machine} {header main : Uri} {path : Path}
    (backed : header.toPath? = some path) (other : header ≠ main) (headerText text : String)
    {filename : String} (listed : filename ∈ Scan.includes text)
    (leads : Include.resolve? machine (main.toPath?.bind Path.parent?) cache.includePaths filename =
      some path) :
    let opened := (cache.update machine header headerText).update machine main text
    let unopened := cache.update machine main text
    unopened.update machine header headerText = opened ∧
    (opened.get machine main).1 =
      (cache.scanEntry machine main text).overlaid (opened.layer machine [main]) ∧
    Uri.ofPath path ∈ (cache.scanEntry machine main text).dependencies ∧
    (header = Uri.ofPath path →
      opened.layer machine [main] (Uri.ofPath path) =
        (cache.scanEntry machine header headerText).overlaid
          (opened.layer machine [Uri.ofPath path, main])) ∧
    (header ≠ Uri.ofPath path →
      (Built cache → (opened.get machine main).1 = (unopened.get machine main).1) ∧
      (Uri.ofPath path ≠ main →
        opened.layer machine [main] (Uri.ofPath path) =
          match (cache.entry? (Uri.ofPath path)).or ((machine.read? path).map fun bytes =>
            cache.scanEntry machine (Uri.ofPath path) (Utf8.decodeString bytes)) with
          | some entry => entry.overlaid (opened.layer machine [Uri.ofPath path, main])
          | none => .empty)) := by
  intro opened unopened
  have swapped : unopened.update machine header headerText = opened :=
    update_comm other.symm cache machine text headerText
  have root : opened.view machine main = some (cache.scanEntry machine main text) :=
    view_update_self _ machine main text
  have settledPath := Include.isSettled_of_resolve? leads
  refine ⟨swapped, ?_, mem_dependencies_of_resolve? listed leads, ?_, ?_⟩
  · rw [get_eq_layer, layer_of_view List.not_mem_nil root]
  · intro canonical
    have found : opened.view machine (Uri.ofPath path) =
        some (cache.scanEntry machine header headerText) := by
      rw [← swapped, ← canonical]
      exact view_update_self unopened machine header headerText
    exact layer_of_view (by simpa [← canonical] using other) found
  · intro spelled
    have unsettled : ¬header.IsSettled := by
      intro settled
      apply spelled
      rw [settled.eq_ofPath backed machine, Machine.absolutize, settledPath.absolutize]
    refine ⟨fun built => ?_, fun apart => ?_⟩
    · rw [← swapped]
      exact (built.update machine main text).get_update_of_not_isSettled unsettled other machine headerText
    · have canonical : (Uri.ofPath path).toPath? = some path := by
        obtain ⟨names, plain, rfl⟩ := settledPath
        rw [Uri.toPath?_ofPath_ofNames plain, Uri.closeDrive_of_toPath? backed]
      have found : opened.view machine (Uri.ofPath path) =
          (cache.entry? (Uri.ofPath path)).or ((machine.read? path).map fun bytes =>
            cache.scanEntry machine (Uri.ofPath path) (Utf8.decodeString bytes)) := by
        rw [← swapped, view_update_of_ne spelled.symm, view_update_of_ne apart, view, effective?, load?_eq_map,
          canonical, Option.bind_some]
      rw [← found]
      cases held : opened.view machine (Uri.ofPath path) with
      | some entry => exact layer_of_view (by simpa using apart) held
      | none => exact (opened.merges_layer machine [main] (Uri.ofPath path)).eq_empty held

theorem canonical_header_layer :
    let machine : Machine :=
      ⟨Disk.empty.write (.ofString "/a.h") (Utf8.encodeString "#define A 1\n"),
        .ofString "/", .ofString "/"⟩
    let path := Path.ofString "/a.h"
    let header := Uri.ofPath path
    let main := Uri.ofPath (.ofString "/m.S")
    let text := "#include \"a.h\"\n"
    let opened := (Cache.empty.update machine header "#define A 2\n").update machine main text
    header.toPath? = some path ∧ header ≠ main ∧ "a.h" ∈ Scan.includes text ∧
      Include.resolve? machine (main.toPath?.bind Path.parent?) Cache.empty.includePaths "a.h" = some path ∧
      opened.layer machine [main] header =
        (Cache.empty.scanEntry machine header "#define A 2\n").overlaid
          (opened.layer machine [header, main]) := by
  intro machine path header main text opened
  have backed : header.toPath? = some path := by decide +kernel
  have other : header ≠ main := by decide +kernel
  have listed : "a.h" ∈ Scan.includes text := by decide +kernel
  have leads : Include.resolve? machine (main.toPath?.bind Path.parent?) Cache.empty.includePaths "a.h" =
      some path := by
    decide +kernel
  obtain ⟨_, _, _, layered, _⟩ := open_header_layer backed other "#define A 2\n" text listed leads
  exact ⟨backed, other, listed, leads, layered rfl⟩

/-- The same header open under an identifier with an escape that could be left out. Whichever is opened first,
the macro has the value on disk. -/
theorem escaped_header_not_layered :
    let machine : Machine :=
      ⟨Disk.empty.write (.ofString "/a.h") (Utf8.encodeString "#define A 1\n"),
        .ofString "/", .ofString "/"⟩
    let path := Path.ofString "/a.h"
    let header : Uri := ⟨"file", some "", .rooted ["%61.h"], none, none⟩
    let main := Uri.ofPath (.ofString "/m.S")
    let text := "#include \"a.h\"\n"
    let opened := (Cache.empty.update machine header "#define A 2\n").update machine main text
    Uri.parse "file:///%61.h" = .ok header ∧ header.toPath? = some path ∧ header ≠ main ∧
      Scan.includes text = ["a.h"] ∧
      Include.resolve? machine (main.toPath?.bind Path.parent?) [] "a.h" = some path ∧
      machine.isFile path = true ∧
      (Cache.empty.update machine main text).update machine header "#define A 2\n" = opened ∧
      (scan "#define A 2\n" header).macros["A"]? = some ⟨"2", header, 0⟩ ∧
      (opened.get machine main).1.macros["A"]? = some ⟨"1", Uri.ofPath path, 0⟩ := by
  intro machine path header main text opened
  have other : header ≠ main := by decide +kernel
  refine ⟨by decide +kernel, by decide +kernel, other, by decide +kernel, by decide +kernel,
    by decide +kernel, update_comm other.symm _ machine text _, by decide +kernel, ?_⟩
  have ends : (visit machine 3 [] opened main).isSome := by decide +kernel
  rw [get_eq_visit ends]
  decide +kernel

end Cache

end AsmIndex
