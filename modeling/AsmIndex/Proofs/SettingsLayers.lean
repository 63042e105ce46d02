import AsmIndex.Proofs.Canonical
import AsmIndex.Settings.Layer

namespace AsmIndex

def ConfigValue.isTable : ConfigValue → Bool
  | .table _ => true
  | _ => false

namespace Settings

/-- The form in which a key is held. -/
def heldKey (key : String) : String :=
  String.ofList (Text.lowercase key.toList)

def layersOf (formats : List FileFormat) (machine : Machine) (root : Path) (capabilities : Capabilities)
    (client : ClientSettings) : Except SettingsError (List Fields) := do
  let user ← fileFields formats machine (userFile machine)
  let workspace ← fileFields formats machine (workspaceFile root)
  return [user, workspace, clientFields capabilities client]

theorem loadWith_eq_ofFields {formats : List FileFormat} {machine : Machine} {root : Path}
    {capabilities : Capabilities} {client : ClientSettings} {layers : List Fields}
    (parsed : layersOf formats machine root capabilities client = .ok layers) :
    loadWith formats machine root capabilities client =
      if root.text?.isNone then .error .rootNotText else ofFields layers := by
  obtain ⟨user, userRead, parsed⟩ := bind_eq_ok parsed
  obtain ⟨workspace, workspaceRead, parsed⟩ := bind_eq_ok parsed
  obtain rfl := Except.ok.inj parsed
  simp only [loadWith, userRead, workspaceRead]
  split <;> rfl

theorem getElem?_set (held : Layers) (key : String) (incoming : Sourced) (place : String) :
    (set held key incoming)[place]? =
      if heldKey key = place then some (overlay held[place]? incoming) else held[place]? := by
  unfold set
  change (held.insert (heldKey key) (overlay held[heldKey key]? incoming))[place]? = _
  rw [Std.ExtTreeMap.getElem?_insert]
  by_cases same : heldKey key = place
  · simp [same]
  · simp [same]

theorem overlay_of_not_table (held : Option Sourced) {incoming : Sourced}
    (plain : incoming.value.isTable = false) : overlay held incoming = incoming := by
  obtain ⟨value, origin?⟩ := incoming
  cases value <;> first | rfl | cases plain

def AgreeOff (key : String) (held other : Layers) : Prop :=
  ∀ place, place ≠ heldKey key → held[place]? = other[place]?

def SameBut (key : String) (fields others : Fields) : Prop :=
  fields.filter (heldKey ·.1 ≠ heldKey key) = others.filter (heldKey ·.1 ≠ heldKey key)

def Fixes (key : String) (fields : Fields) : Prop :=
  ∃ field ∈ fields, heldKey field.1 = heldKey key ∧ field.2.value.isTable = false

/-- Some layer fixes the key, and of those below it any may have been changed under the key. -/
inductive ChangedBelow (key : String) : List Fields → List Fields → Prop
  | fixed {top : Fields} (fixes : Fixes key top) (above : List Fields) :
    ChangedBelow key (top :: above) (top :: above)
  | lower {fields others : Fields} {layers rest : List Fields} (same : SameBut key fields others)
    (more : ChangedBelow key layers rest) : ChangedBelow key (fields :: layers) (others :: rest)

section Keys

variable {key : String} {held other : Layers}

theorem AgreeOff.set (agree : AgreeOff key held other) (name : String) (incoming : Sourced) :
    AgreeOff key (Settings.set held name incoming) (Settings.set other name incoming) := by
  intro place off
  rw [getElem?_set, getElem?_set, agree place off]

theorem AgreeOff.set_self (agree : AgreeOff key held other) {name : String} (same : heldKey name = heldKey key)
    (incoming : Sourced) : AgreeOff key (Settings.set held name incoming) other := by
  intro place off
  rw [getElem?_set, if_neg (fun here => off (here.symm.trans same)), agree place off]

theorem AgreeOff.lay (agree : AgreeOff key held other) (fields : Fields) :
    AgreeOff key (Settings.lay held fields) (Settings.lay other fields) := by
  induction fields generalizing held other with
  | nil => exact agree
  | cons field fields ih => exact ih (agree.set field.1 field.2)

theorem AgreeOff.lay_filter (agree : AgreeOff key held other) (fields : Fields) :
    AgreeOff key (Settings.lay held fields)
      (Settings.lay other (fields.filter (heldKey ·.1 ≠ heldKey key))) := by
  induction fields generalizing held other with
  | nil => exact agree
  | cons field fields ih =>
    by_cases same : heldKey field.1 = heldKey key
    · rw [List.filter_cons_of_neg (by simpa using same)]
      exact ih (agree.set_self same field.2)
    · rw [List.filter_cons_of_pos (by simpa using same)]
      exact ih (agree.set field.1 field.2)

theorem AgreeOff.lay_sameBut (agree : AgreeOff key held other) {fields others : Fields}
    (same : SameBut key fields others) : AgreeOff key (Settings.lay held fields) (Settings.lay other others) := by
  intro place off
  have mine := agree.lay_filter fields place off
  have theirs := (show AgreeOff key other other from fun _ _ => rfl).lay_filter others place off
  unfold SameBut at same
  rw [mine, same, theirs]

theorem lay_eq_of_fixes (agree : AgreeOff key held other) {fields : Fields} (fixes : Fixes key fields) :
    lay held fields = lay other fields := by
  obtain ⟨field, member, same, plain⟩ := fixes
  obtain ⟨front, back, rfl⟩ := List.append_of_mem member
  have replaced : set (lay held front) field.1 field.2 = set (lay other front) field.1 field.2 := by
    apply Std.ExtTreeMap.ext_getElem?
    intro place
    rw [getElem?_set, getElem?_set, overlay_of_not_table _ plain, overlay_of_not_table _ plain]
    split
    · rfl
    case isFalse elsewhere =>
      apply agree.lay front
      exact fun here => elsewhere (same.trans here.symm)
  simp only [lay, List.foldl_append, List.foldl_cons] at replaced ⊢
  rw [replaced]

theorem ChangedBelow.foldl_lay {layers others : List Fields} (changed : ChangedBelow key layers others)
    (agree : AgreeOff key held other) : layers.foldl lay held = others.foldl lay other := by
  induction changed generalizing held other with
  | fixed fixes above => rw [List.foldl_cons, List.foldl_cons, lay_eq_of_fixes agree fixes]
  | lower same _ ih => exact ih (agree.lay_sameBut same)

end Keys

theorem getElem?_lay_untouched {fields : Fields} {place : String}
    (elsewhere : ∀ field ∈ fields, heldKey field.1 ≠ place) (held : Layers) :
    (lay held fields)[place]? = held[place]? := by
  induction fields generalizing held with
  | nil => rfl
  | cons field fields ih =>
    have others : ∀ other ∈ fields, heldKey other.1 ≠ place :=
      fun other member => elsewhere other (List.mem_cons_of_mem _ member)
    have rest := ih others (set held field.1 field.2)
    rw [getElem?_set, if_neg (elsewhere field (List.mem_cons_self ..))] at rest
    exact rest

theorem getElem?_lay_of_mem {fields : Fields} (apart : fields.Pairwise fun a b => heldKey b.1 ≠ heldKey a.1)
    {field : String × Sourced} (member : field ∈ fields) (plain : field.2.value.isTable = false) (held : Layers) :
    (lay held fields)[heldKey field.1]? = some field.2 := by
  induction fields generalizing held with
  | nil => cases member
  | cons first fields ih =>
    obtain ⟨others, apart⟩ := List.pairwise_cons.mp apart
    rcases List.mem_cons.mp member with rfl | member
    · have rest := getElem?_lay_untouched others (set held field.1 field.2)
      rwa [getElem?_set, if_pos rfl, overlay_of_not_table _ plain] at rest
    · exact ih apart member (set held first.1 first.2)

section Client

variable {capabilities : Capabilities} {client : ClientSettings}

def settingKeys : List String :=
  defaultFields.map Prod.fst

theorem heldKey_of_mem {key : String} (known : key ∈ settingKeys) : heldKey key = key := by
  have all : ∀ key ∈ settingKeys, heldKey key = key := by decide +kernel
  exact all key known

theorem clientFields_apart (capabilities : Capabilities) (client : ClientSettings) :
    (clientFields capabilities client).Pairwise fun a b => heldKey b.1 ≠ heldKey a.1 := by
  unfold clientFields
  cases client.includePaths? <;> cases client.hover? <;> cases client.instructionCompletions? <;>
    cases tokenChoice? capabilities client <;> simp [heldKey_of_mem, settingKeys, defaultFields]

theorem readSwitch_eq_ok {layers : Layers} {key : String} {choice : Bool} {origin? : Option String}
    (found : layers[key]? = some ⟨.boolean choice, origin?⟩) : readSwitch layers key = .ok choice := by
  simp [readSwitch, found]

theorem mapM_readText (key : String) (origin? : Option String) (texts : List String) (start : Nat) :
    ((texts.map ConfigValue.text).zipIdx start).mapM (fun row =>
      readText (key ++ "[" ++ toString row.2 ++ "]") origin? row.1) = Except.ok texts := by
  induction texts generalizing start with
  | nil => rfl
  | cons text texts ih =>
    rw [List.map_cons, List.zipIdx_cons, List.mapM_cons, ih]
    rfl

theorem readTexts_eq_ok {layers : Layers} {key : String} {texts : List String} {origin? : Option String}
    (found : layers[key]? = some ⟨.list (texts.map .text), origin?⟩) : readTexts layers key = .ok texts := by
  simp only [readTexts, found]
  exact mapM_readText key origin? texts 0

theorem tokenChoice?_of_declared (declared : capabilities.textDocument? ≠ some ⟨false⟩) :
    tokenChoice? capabilities client = client.semanticTokens? := by
  unfold tokenChoice?
  cases listed : capabilities.textDocument? with
  | none => rfl
  | some support =>
    obtain ⟨tokens⟩ := support
    cases tokens with
    | false => exact absurd listed declared
    | true => rfl

theorem ofLayers_eq_ok {layers : Layers} {settings : Settings} (read : ofLayers layers = .ok settings) :
    readTexts layers "include_paths" = .ok settings.includePaths ∧
    readSwitch layers "hover" = .ok settings.hover ∧
    readSwitch layers "semantic_tokens" = .ok settings.semanticTokens ∧
    readSwitch layers "instruction_completions" = .ok settings.instructionCompletions := by
  unfold ofLayers at read
  obtain ⟨paths, readPaths, read⟩ := bind_eq_ok read
  obtain ⟨hover, readHover, read⟩ := bind_eq_ok read
  obtain ⟨tokens, readTokens, read⟩ := bind_eq_ok read
  obtain ⟨instructions, readInstructions, read⟩ := bind_eq_ok read
  obtain rfl := Except.ok.inj read
  exact ⟨readPaths, readHover, readTokens, readInstructions⟩

theorem exists_held_of_loadWith {formats : List FileFormat} {machine : Machine} {root : Path}
    {settings : Settings} (loaded : loadWith formats machine root capabilities client = .ok settings) :
    ∃ held, ofLayers (lay held (clientFields capabilities client)) = .ok settings := by
  unfold loadWith at loaded
  dsimp only at loaded
  split at loaded
  · cases loaded
  · obtain ⟨user, _, loaded⟩ := bind_eq_ok loaded
    obtain ⟨workspace, _, loaded⟩ := bind_eq_ok loaded
    exact ⟨lay (lay defaults user) workspace, loaded⟩

theorem loadWith_takes_client {formats : List FileFormat} {machine : Machine} {root : Path}
    {settings : Settings} (loaded : loadWith formats machine root capabilities client = .ok settings) :
    (∀ paths, client.includePaths? = some paths → settings.includePaths = paths) ∧
    (∀ choice, client.hover? = some choice → settings.hover = choice) ∧
    (∀ choice, client.instructionCompletions? = some choice → settings.instructionCompletions = choice) ∧
    ∀ choice, tokenChoice? capabilities client = some choice → settings.semanticTokens = choice := by
  obtain ⟨held, read⟩ := exists_held_of_loadWith loaded
  obtain ⟨readPaths, readHover, readTokens, readInstructions⟩ := ofLayers_eq_ok read
  have apart := clientFields_apart capabilities client
  have switch {key : String} {choice value : Bool}
      (member : (key, ⟨.boolean choice, none⟩) ∈ clientFields capabilities client)
      (known : key ∈ settingKeys)
      (read : readSwitch (lay held (clientFields capabilities client)) key = .ok value) : value = choice := by
    have found := getElem?_lay_of_mem apart member rfl held
    rw [heldKey_of_mem known] at found
    exact Except.ok.inj (read.symm.trans (readSwitch_eq_ok found))
  refine ⟨fun paths chosen => ?_, fun choice chosen => ?_, fun choice chosen => ?_, fun choice chosen => ?_⟩
  · have member : ("include_paths", ⟨.list (paths.map .text), none⟩) ∈ clientFields capabilities client := by
      simp [clientFields, chosen]
    have found := getElem?_lay_of_mem apart member rfl held
    rw [heldKey_of_mem (show "include_paths" ∈ settingKeys by decide)] at found
    exact Except.ok.inj (readPaths.symm.trans (readTexts_eq_ok found))
  · exact switch (by simp [clientFields, chosen]) (by decide) readHover
  · exact switch (by simp [clientFields, chosen]) (by decide) readInstructions
  · exact switch (by simp [clientFields, chosen]) (by decide) readTokens

end Client

/-- Below a layer that gives a key a value that is no table, nothing that is said under this key has an effect,
whatever the formats of the settings files are and how they are read. So what the client chooses holds, apart from
tokens that its capabilities leave out. -/
theorem load_hides_lower_layers (formats : List FileFormat) (root : Path) (capabilities : Capabilities)
    (client : ClientSettings) :
    (∀ key layers others, ChangedBelow key layers others → ofFields others = ofFields layers) ∧
    (∀ machine disk key layers others, layersOf formats machine root capabilities client = .ok layers →
      layersOf formats { machine with disk := disk } root capabilities client = .ok others →
      ChangedBelow key layers others →
      loadWith formats { machine with disk := disk } root capabilities client =
        loadWith formats machine root capabilities client) ∧
    ∀ machine settings, loadWith formats machine root capabilities client = .ok settings →
      (∀ paths, client.includePaths? = some paths → settings.includePaths = paths) ∧
      (∀ choice, client.hover? = some choice → settings.hover = choice) ∧
      (∀ choice, client.instructionCompletions? = some choice → settings.instructionCompletions = choice) ∧
      (capabilities.textDocument? = some ⟨false⟩ → settings.semanticTokens = false) ∧
      (capabilities.textDocument? ≠ some ⟨false⟩ →
        ∀ choice, client.semanticTokens? = some choice → settings.semanticTokens = choice) := by
  have hidden (key : String) (layers others : List Fields) (changed : ChangedBelow key layers others) :
      ofFields others = ofFields layers := by
    have same := changed.foldl_lay (show AgreeOff key defaults defaults from fun _ _ => rfl)
    rw [ofFields, ofFields, same]
  refine ⟨hidden, ?_, ?_⟩
  · intro machine disk key layers others parsed parsedAgain changed
    rw [loadWith_eq_ofFields parsed, loadWith_eq_ofFields parsedAgain, hidden key layers others changed]
  · intro machine settings loaded
    obtain ⟨paths, hover, instructions, tokens⟩ := loadWith_takes_client loaded
    refine ⟨paths, hover, instructions, fun declined => ?_, fun declared choice chosen => ?_⟩
    · apply tokens
      simp [tokenChoice?, declined]
    · apply tokens
      rw [tokenChoice?_of_declared declared, chosen]

theorem client_hides_ill_typed_file :
    let format : FileFormat := ⟨".ini", fun _ => some [("Hover", .text "x")]⟩
    let file := Path.ofString "/h/.config/gas-macro-lsp/settings.ini"
    let machine : Machine :=
      ⟨Disk.empty.write file (Utf8.encodeString "Hover = x"), .ofString "/h", .ofString "/"⟩
    let root := Path.ofString "/w"
    let client : ClientSettings := ⟨none, some true, none, none⟩
    let layers := [[("Hover", ⟨.text "x", some "h/.config/gas-macro-lsp/settings.ini"⟩)], [],
      clientFields ⟨none⟩ client]
    let others := [[], [], clientFields ⟨none⟩ client]
    layersOf [format] machine root ⟨none⟩ client = .ok layers ∧
      layersOf [format] { machine with disk := .empty } root ⟨none⟩ client = .ok others ∧
      ChangedBelow "hover" layers others ∧
      loadWith [format] { machine with disk := .empty } root ⟨none⟩ client =
        loadWith [format] machine root ⟨none⟩ client := by
  intro format file machine root client layers others
  have missing {machine : Machine} {base : Path} (none : file? [format] machine base = none) :
      fileFields [format] machine base = .ok [] := by
    unfold fileFields
    rw [none]
  have user : fileFields [format] machine (userFile machine) =
      .ok [("Hover", ⟨.text "x", some "h/.config/gas-macro-lsp/settings.ini"⟩)] := by
    have read : (machine.read? file).bind Utf8.decode? = some "Hover = x".toList := by decide +kernel
    have found : file? [format] machine (userFile machine) = some (file, format) := by
      have bare : machine.isFile (machine.cwd.join (userFile machine)) = false := by decide +kernel
      have here : machine.isFile file = true := by decide +kernel
      have name : (⟨(machine.cwd.join (userFile machine)).bytes ++ Utf8.encodeString format.extension⟩ : Path) =
          file := by decide +kernel
      simp [file?, bare, name, here]
    have shown : ((file.relativeTo? machine.cwd).getD file).display =
        "h/.config/gas-macro-lsp/settings.ini" := by
      decide +kernel
    simp [fileFields, found, read, format, shown]
  have given : layersOf [format] machine root ⟨none⟩ client = .ok layers := by
    rw [layersOf, user, missing (by decide +kernel)]
    rfl
  have bare : layersOf [format] { machine with disk := .empty } root ⟨none⟩ client = .ok others := by
    rw [layersOf, missing (by decide +kernel), missing (by decide +kernel)]
    rfl
  have same : SameBut "hover" [("Hover", ⟨.text "x", some "h/.config/gas-macro-lsp/settings.ini"⟩)] [] := by
    have key : heldKey "Hover" = heldKey "hover" := by decide +kernel
    simp [SameBut, key]
  have fixes : Fixes "hover" (clientFields ⟨none⟩ client) :=
    ⟨("hover", ⟨.boolean true, none⟩), by simp [clientFields, client], rfl, rfl⟩
  have changed : ChangedBelow "hover" layers others := .lower same (.lower rfl (.fixed fixes []))
  have loaded :=
    (load_hides_lower_layers [format] root ⟨none⟩ client).2.1 machine .empty "hover" _ _ given bare changed
  exact ⟨given, bare, changed, loaded⟩

end Settings

end AsmIndex
