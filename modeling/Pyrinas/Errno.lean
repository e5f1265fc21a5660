import Mathlib.Tactic.Common
import Mathlib.Data.Int.Notation

/-!
# Errno — the error numbers of the C library
-/

namespace Pyrinas

abbrev eNoEnt : ℤ := 2

abbrev eIo : ℤ := 5

abbrev eAgain : ℤ := 11

abbrev eNoMem : ℤ := 12

abbrev eBusy : ℤ := 16

abbrev eInval : ℤ := 22

abbrev eInProgress : ℤ := 119

abbrev eAlready : ℤ := 120

abbrev eMsgSize : ℤ := 122

end Pyrinas
