import Mathlib.Data.Fintype.Pi
import Mathlib.Tactic.Common

/-!
# Cloud/Version — `union pyrinas_cloud_ota_version` and `ver_comp`

Four numbers, compared one after the other, and eight bytes of hash, which are only compared for
being the same.
-/

namespace Pyrinas

/-- `union pyrinas_cloud_ota_version` -/
structure OtaVersion where
  major : UInt8
  minor : UInt8
  patch : UInt8
  commit : UInt8
  hash : Fin 8 → UInt8
  deriving DecidableEq

namespace OtaVersion

/-- All bytes zero. -/
def zero : OtaVersion := ⟨0, 0, 0, 0, fun _ => 0⟩

/-- The first `VER_ENTIRES` bytes of `raw`. -/
def raw (v : OtaVersion) : List UInt8 := [v.major, v.minor, v.patch, v.commit]

end OtaVersion

/-- The loop of `ver_comp`: the first difference decides. -/
def verCompRaw : List UInt8 → List UInt8 → Option ℤ
  | a :: first, b :: second =>
    if a > b then some (-1) else if a = b then verCompRaw first second else some 1
  | _, _ => none

/-- `ver_comp`: -1 if the first is greater, 1 if the second is; versions that differ in the hash
only count as an update in either direction. -/
def verComp (first second : OtaVersion) : ℤ :=
  match verCompRaw first.raw second.raw with
  | some r => r
  | none => if first.hash ≠ second.hash then 1 else 0

end Pyrinas
