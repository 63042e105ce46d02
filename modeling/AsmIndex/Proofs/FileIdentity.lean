import AsmIndex.Include
import AsmIndex.Uri.Basic

namespace AsmIndex

namespace Percent

theorem hexValue?_hexDigit {n : Nat} (small : n < 16) : hexValue? (hexDigit n) = some n := by
  have all : ∀ n : Fin 16, hexValue? (hexDigit n) = some n.val := by decide
  exact all ⟨n, small⟩

theorem decode_escape (b : UInt8) (rest : List Char) :
    decode (escape b ++ rest) = b :: decode rest := by
  have bound := b.toNat_lt
  have high : b.toNat / 16 < 16 := by omega
  have low : b.toNat % 16 < 16 := by omega
  have whole : b.toNat / 16 * 16 + b.toNat % 16 = b.toNat := by omega
  change decode ('%' :: hexDigit (b.toNat / 16) :: hexDigit (b.toNat % 16) :: rest) = _
  simp only [decode, hexValue?_hexDigit high, hexValue?_hexDigit low, whole, UInt8.ofNat_toNat]

theorem plain_byte (b : UInt8) (kept : escapedInName b = false) :
    Char.ofNat b.toNat ≠ '%' ∧ String.utf8EncodeChar (Char.ofNat b.toNat) = [b] := by
  have all : ∀ n : Fin 256, escapedInName (UInt8.ofNat n) = false →
      Char.ofNat (UInt8.ofNat n).toNat ≠ '%' ∧
        String.utf8EncodeChar (Char.ofNat (UInt8.ofNat n).toNat) = [UInt8.ofNat n] := by
    decide +kernel
  have here := all ⟨b.toNat, b.toNat_lt⟩
  simp only [UInt8.ofNat_toNat] at here
  exact here kept

theorem decode_encodeByte (b : UInt8) (rest : List Char) :
    decode (encodeByte escapedInName b ++ rest) = b :: decode rest := by
  unfold encodeByte
  split
  · exact decode_escape b rest
  · rename_i kept
    obtain ⟨other, bytes⟩ := plain_byte b (by simpa using kept)
    rw [List.singleton_append, decode, bytes, List.singleton_append]
    intro _ _ _ same
    exact absurd same other

theorem decode_encode (bytes : Bytes) : decode (encode escapedInName bytes) = bytes := by
  induction bytes with
  | nil => rfl
  | cons b bytes ih =>
    change decode (encodeByte escapedInName b ++ encode escapedInName bytes) = _
    rw [decode_encodeByte, ih]

end Percent

namespace Path

structure PlainName (name : Bytes) : Prop where
  nonempty : name ≠ []
  notHere : name ≠ [dot]
  notUp : name ≠ [dot, dot]
  unsplit : slash ∉ name

theorem PlainName.ofPiece {name : Bytes} (plain : PlainName name) :
    Component.ofPiece name = .name name := by
  simp [Component.ofPiece, plain.nonempty, plain.notHere, plain.notUp]

theorem split_slash (bytes : Bytes) : split (slash :: bytes) = [] :: split bytes := by
  simp [split]

theorem split_ne_nil (bytes : Bytes) : split bytes ≠ [] := by
  cases bytes with
  | nil => simp [split]
  | cons b bytes =>
    simp only [split]
    split
    · simp
    · split <;> simp

theorem split_cons_of_ne {b : UInt8} (other : b ≠ slash) {bytes piece : Bytes}
    {pieces : List Bytes} (rest : split bytes = piece :: pieces) :
    split (b :: bytes) = (b :: piece) :: pieces := by
  simp [split, other, rest]

theorem split_append (front back : Bytes) : split (front ++ slash :: back) = split front ++ split back := by
  induction front with
  | nil => exact split_slash back
  | cons b front ih =>
    by_cases same : b = slash
    · subst same
      rw [List.cons_append, split_slash, split_slash, ih, List.cons_append]
    · obtain ⟨piece, pieces, rest⟩ := List.exists_cons_of_ne_nil (split_ne_nil front)
      rw [rest, List.cons_append] at ih
      rw [List.cons_append, split_cons_of_ne same ih, split_cons_of_ne same rest, List.cons_append]

theorem split_of_unsplit {name : Bytes} (unsplit : slash ∉ name) : split name = [name] := by
  induction name with
  | nil => rfl
  | cons b name ih =>
    have other : b ≠ slash := fun same => unsplit (by simp [same])
    exact split_cons_of_ne other (ih fun member => unsplit (List.mem_cons_of_mem _ member))

theorem unsplit_of_mem_split {bytes piece : Bytes} (member : piece ∈ split bytes) :
    slash ∉ piece := by
  induction bytes generalizing piece with
  | nil => simp_all [split]
  | cons b bytes ih =>
    by_cases same : b = slash
    · subst same
      rw [split_slash] at member
      rcases List.mem_cons.mp member with rfl | member
      · simp
      · exact ih member
    · obtain ⟨first, pieces, rest⟩ := List.exists_cons_of_ne_nil (split_ne_nil bytes)
      rw [split_cons_of_ne same rest] at member
      rcases List.mem_cons.mp member with rfl | member
      · intro inside
        rcases List.mem_cons.mp inside with same' | inside
        · exact same same'.symm
        · exact ih (by rw [rest]; simp) inside
      · exact ih (by rw [rest]; exact List.mem_cons_of_mem _ member)

theorem split_ofNames {names : List Bytes} (plain : ∀ name ∈ names, PlainName name)
    (nonempty : names ≠ []) : split (ofNames names).bytes = [] :: names := by
  simp only [ofNames, nonempty, if_false]
  induction names with
  | nil => contradiction
  | cons name names ih =>
    have unsplit := (plain name (by simp)).unsplit
    rw [List.flatMap_cons, List.cons_append, split_slash]
    cases names with
    | nil => simp [split_of_unsplit unsplit]
    | cons next names =>
      have rest := ih (fun other member => plain other (List.mem_cons_of_mem _ member)) (by simp)
      rw [List.flatMap_cons, List.cons_append, split_slash] at rest
      rw [List.flatMap_cons, List.cons_append, split_append, split_of_unsplit unsplit, (List.cons.inj rest).2]
      rfl

theorem components_of_plain {names : List Bytes} (plain : ∀ name ∈ names, PlainName name) :
    (names.map Component.ofPiece).filter (· ≠ .here) = names.map .name := by
  have each : names.map Component.ofPiece = names.map .name :=
    List.map_congr_left fun name member => (plain name member).ofPiece
  rw [each]
  simp

theorem pieces_ofNames {names : List Bytes} (plain : ∀ name ∈ names, PlainName name) :
    (ofNames names).steps.filter (· ≠ .here) = names.map .name := by
  by_cases root : names = []
  · subst root
    decide
  · rw [steps, split_ofNames plain root]
    exact components_of_plain plain

theorem isAbsolute_ofNames (names : List Bytes) : (ofNames names).isAbsolute = true := by
  unfold ofNames
  split
  · decide
  · rename_i nonempty
    obtain ⟨name, rest, rfl⟩ := List.exists_cons_of_ne_nil nonempty
    simp [isAbsolute]

theorem exists_bytes_of_isAbsolute {path : Path} (absolute : path.isAbsolute = true) :
    ∃ rest, path.bytes = slash :: rest :=
  List.head?_eq_some_iff.mp (by simpa [isAbsolute] using absolute)

theorem components_of_isAbsolute {path : Path} (absolute : path.isAbsolute = true) :
    path.components = .root :: path.steps.filter (· ≠ .here) := by
  simp only [components, absolute, if_true, List.singleton_append]

theorem components_ofNames {names : List Bytes} (plain : ∀ name ∈ names, PlainName name) :
    (ofNames names).components = .root :: names.map .name := by
  rw [components_of_isAbsolute (isAbsolute_ofNames names), pieces_ofNames plain]

theorem foldl_enter_filter (parts : List Component) (place : List Bytes) :
    (parts.filter (· ≠ .here)).foldl enter place = parts.foldl enter place := by
  induction parts generalizing place with
  | nil => rfl
  | cons part parts ih =>
    by_cases here : part = .here
    · subst here
      simpa [enter] using ih place
    · simpa [here] using ih (enter place part)

theorem foldl_enter_names (names place : List Bytes) :
    (names.map .name).foldl enter place = place ++ names := by
  induction names generalizing place with
  | nil => simp
  | cons name names ih => simp [enter, ih]

theorem foldl_enter_append (place : List Bytes) (front back : Bytes) :
    (Path.mk (front ++ slash :: back)).steps.foldl enter place =
      (Path.mk back).steps.foldl enter ((Path.mk front).steps.foldl enter place) := by
  rw [steps, split_append, List.map_append, List.foldl_append]
  rfl

theorem foldl_enter_final_slash (place : List Bytes) (front : Bytes) :
    (Path.mk (front ++ [slash])).steps.foldl enter place = (Path.mk front).steps.foldl enter place := by
  rw [foldl_enter_append]
  rfl

theorem foldl_enter_ofNames {names : List Bytes} (plain : ∀ name ∈ names, PlainName name) :
    (ofNames names).steps.foldl enter [] = names := by
  rw [← foldl_enter_filter, pieces_ofNames plain, foldl_enter_names, List.nil_append]

theorem Component.ofPiece_cases (piece : Bytes) :
    ofPiece piece = .here ∨ ofPiece piece = .up ∨ ofPiece piece = .name piece := by
  unfold ofPiece
  split
  · exact .inl rfl
  · split
    · exact .inr (.inl rfl)
    · exact .inr (.inr rfl)

theorem mem_split_of_mem_components {path : Path} {name : Bytes}
    (member : Component.name name ∈ path.components) :
    name ∈ split path.bytes ∧ Component.ofPiece name = .name name := by
  have piece : ∃ piece ∈ split path.bytes, Component.ofPiece piece = .name name := by
    simp only [components, steps, List.mem_append, List.mem_filter, List.mem_map] at member
    rcases member with member | ⟨piece, _⟩
    · split at member
      · simp at member
      · split at member <;> simp at member
    · exact piece
  obtain ⟨piece, inside, read⟩ := piece
  have same : piece = name := by
    rcases Component.ofPiece_cases piece with here | up | named
    · cases here.symm.trans read
    · cases up.symm.trans read
    · cases named.symm.trans read
      rfl
  subst same
  exact ⟨inside, read⟩

theorem plainName_of_mem_components {path : Path} {name : Bytes}
    (member : Component.name name ∈ path.components) : PlainName name := by
  obtain ⟨inside, read⟩ := mem_split_of_mem_components member
  unfold Component.ofPiece at read
  split at read
  · cases read
  · rename_i notHere
    split at read
    · cases read
    · rename_i notUp
      exact ⟨fun same => notHere (.inl same), fun same => notHere (.inr same), notUp,
        unsplit_of_mem_split inside⟩

theorem plainName_of_mem_foldl_enter {parts : List Component} {place : List Bytes}
    (plain : ∀ name, Component.name name ∈ parts → PlainName name)
    (start : ∀ name ∈ place, PlainName name) :
    ∀ name ∈ parts.foldl enter place, PlainName name := by
  induction parts generalizing place with
  | nil => exact start
  | cons part parts ih =>
    refine ih (fun name member => plain name (List.mem_cons_of_mem _ member)) ?_
    intro name member
    cases part with
    | root => simp [enter] at member
    | here => exact start name member
    | up => exact start name ((List.dropLast_subset _ member))
    | name bytes =>
      rcases List.mem_append.mp member with member | member
      · exact start name member
      · obtain rfl := List.mem_singleton.mp member
        exact plain name (by simp)

theorem absolutize_eq_ofNames (cwd path : Path) :
    ∃ names, (∀ name ∈ names, PlainName name) ∧ absolutize cwd path = ofNames names := by
  refine ⟨settle (cwd.join path).components, ?_, rfl⟩
  exact plainName_of_mem_foldl_enter (fun _ member => plainName_of_mem_components member) (by simp)

theorem join_of_isAbsolute {path : Path} (dir : Path) (absolute : path.isAbsolute = true) :
    dir.join path = path := by
  simp [join, absolute]

end Path

namespace Uri

/-- The identifier is the canonical one of some settled path. -/
def IsSettled (uri : Uri) : Prop :=
  ∃ names, (∀ name ∈ names, Path.PlainName name) ∧ uri = ofPath (Path.ofNames names)

theorem toPath?_ofPath_ofNames {names : List Bytes}
    (plain : ∀ name ∈ names, Path.PlainName name) :
    (ofPath (Path.ofNames names)).toPath? = some ⟨closeDrive (Path.ofNames names).bytes⟩ := by
  have host : (ofPath (Path.ofNames names)).host = "" := by simp [host, ofPath]
  have parts : (Path.ofNames names).components.drop 1 = names.map .name := by
    rw [Path.components_ofNames plain, List.drop_one, List.tail_cons]
  cases names with
  | nil => decide
  | cons name names =>
    have segments : (ofPath (Path.ofNames (name :: names))).path =
        .rooted ((name :: names).map fun name =>
          String.ofList (Percent.encode Percent.escapedInName name)) := by
      simp only [ofPath, parts]
      simp [Path.Component.bytes]
    have bytes : ((name :: names).map fun name =>
          String.ofList (Percent.encode Percent.escapedInName name)).flatMap
        (fun segment => Path.slash :: Percent.decode segment.toList) =
        (Path.ofNames (name :: names)).bytes := by
      simp [List.flatMap_map, Percent.decode_encode, Path.ofNames]
    rw [toPath?, segments]
    simp only [List.map_cons] at bytes ⊢
    simp only [host, true_or, if_true, bytes]

theorem closeDrive_cases (bytes : Bytes) :
    closeDrive bytes = bytes ∨ closeDrive bytes = bytes ++ [Path.slash] := by
  unfold closeDrive
  split
  · split
    · exact .inr rfl
    · exact .inl rfl
  · exact .inl rfl

theorem foldl_enter_closeDrive (bytes : Bytes) :
    (Path.mk (closeDrive bytes)).steps.foldl Path.enter [] = (Path.mk bytes).steps.foldl Path.enter [] := by
  rcases closeDrive_cases bytes with same | closed
  · rw [same]
  · rw [closed, Path.foldl_enter_final_slash]

theorem isAbsolute_closeDrive {path : Path} (absolute : path.isAbsolute = true) :
    (Path.mk (closeDrive path.bytes)).isAbsolute = true := by
  obtain ⟨bytes⟩ := path
  unfold closeDrive
  split
  · split
    · cases bytes <;> simp_all [Path.isAbsolute]
    · exact absolute
  · exact absolute

end Uri

end AsmIndex
