import AsmIndex.Disk
import AsmIndex.Settings.Basic
import AsmIndex.Text.Blank
import AsmIndex.Text.Mark

namespace AsmIndex.IncludePath

def homePlaceholder : String := "$\x7buserHome\x7d"

def workspacePlaceholder : String := "$\x7bworkspaceFolder\x7d"

/-- A tilde at the start is the home directory if it stands alone or a slash follows. -/
def expandTilde (home s : List Char) : List Char :=
  match s with
  | ['~'] => home
  | '~' :: '/' :: rest => home ++ '/' :: rest
  | _ => s

def fill (machine : Machine) (root? : Option Path) (raw : String) : List Char :=
  let home := machine.home.display.toList
  let filled := Text.replace homePlaceholder.toList home raw.toList
  let filled :=
    match root?.bind Path.text? with
    | some root => Text.replace workspacePlaceholder.toList root.toList filled
    | none => filled
  expandTilde home filled

def resolve (machine : Machine) (root? : Option Path) (raw : String) : Path :=
  let path : Path := ⟨Utf8.encode (fill machine root? raw)⟩
  match root? with
  | some root => machine.absolutize (root.join path)
  | none => machine.absolutize path

end AsmIndex.IncludePath

namespace AsmIndex

def Settings.searchDirs (settings : Settings) (machine : Machine) (root? : Option Path) :
    List Path :=
  (settings.includePaths.filter fun raw => Text.trim raw.toList ≠ []).map
    (IncludePath.resolve machine root?)

end AsmIndex
