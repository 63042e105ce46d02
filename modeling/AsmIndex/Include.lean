import AsmIndex.Disk

namespace AsmIndex.Include

def candidates (machine : Machine) (dir? : Option Path) (searchDirs : List Path)
    (filename : String) : List Path :=
  (dir?.toList ++ searchDirs).map fun dir => machine.absolutize (dir.join (Path.ofString filename))

def resolve? (machine : Machine) (dir? : Option Path) (searchDirs : List Path)
    (filename : String) : Option Path :=
  (candidates machine dir? searchDirs filename).find? machine.isFile

end AsmIndex.Include
