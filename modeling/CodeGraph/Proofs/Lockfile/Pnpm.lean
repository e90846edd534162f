import CodeGraph.Proofs.Lockfile
import CodeGraph.Proofs.Lockfile.PackageKey

/-!
What a pnpm lockfile pins. A version comes from what the root importer declares, else from what the
document itself declares, else from the first key of a package; and only the entries of this very
name and version give the integrity.
-/

set_option autoImplicit false

namespace CodeGraph.Lockfile

/-- What is left of a version without its peers. -/
def IsBare (text bare : String) : Prop :=
  ∃ peers, text.toList = bare.toList ++ peers ∧ StartsPeers peers ∧
    '(' ∉ bare.toList ∧ '_' ∉ bare.toList

variable {packages : LockedPackages} {name version : String}

def completed (version : String) (integrity : Option String) (locked : LockedPackage) :
    LockedPackage :=
  if locked.version = version then { locked with integrity := locked.integrity.or integrity }
  else locked

end CodeGraph.Lockfile
