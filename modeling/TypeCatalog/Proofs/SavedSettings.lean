import Mathlib
import TypeCatalog.Proofs.Run
import TypeCatalog.Proofs.SettingsText
import TypeCatalog.Settings.Workspace

namespace TypeCatalog.Files

variable {fs saved : Files} {p q current here : Place} {names : List String} {path text : String} {e : Entry}

end TypeCatalog.Files

namespace TypeCatalog.Workspace

open Files

variable {fs saved : Files} {here : Place} {s : Settings} {path : String} {environment : List (String × String)}

end TypeCatalog.Workspace

namespace TypeCatalog.Sample

end TypeCatalog.Sample
