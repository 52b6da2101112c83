import XsPrep.Files.Access
import XsPrep.Source.Includes

/-!
# Source files

The includes of a source file on a disk.
-/

namespace XsPrep

/-- The includes that a source file mentions, if it can be read. -/
def Listing.ofFile (disk : Files.Disk) (path : Text) : Except Files.Failure Listing :=
  (disk.read path).map Listing.ofText

end XsPrep
