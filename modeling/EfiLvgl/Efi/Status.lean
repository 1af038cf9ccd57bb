import Mathlib.Data.UInt

/-!
# EfiLvgl.Efi.Status — status codes, pointers and characters

What every UEFI-facing part of the package shares: the status codes its entry
points return, pointers and 16-bit characters. A pointer that may be `NULL` is an
`Option Ptr`.
-/

namespace EfiLvgl

/-- The `EFI_STATUS` values the modelled entry points return. -/
inductive EfiStatus where
  | success
  | loadError
  | invalidParameter
  | unsupported
  | bufferTooSmall
  | notReady
  | outOfResources
  | volumeCorrupted
  | notFound
  | accessDenied
  | noMapping
  | alreadyStarted
deriving DecidableEq, Repr

/-- `EFI_ERROR (Status)`. -/
def EfiStatus.isError (st : EfiStatus) : Bool := st ≠ .success

/-- A non-`NULL` pointer. -/
abbrev Ptr := Nat

/-- `CHAR16`. -/
abbrev Char16 := UInt16

/-- A character constant of the source. -/
def ch (c : Char) : Char16 := UInt16.ofNat c.toNat

/-- A string literal of the source. -/
def text (s : List Char) : List Char16 := s.map ch

end EfiLvgl
