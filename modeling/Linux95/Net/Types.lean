import Mathlib.Data.Fintype.Pi
import Mathlib.Tactic.Common

/-! `net/net_types.hpp`: addresses and big-endian fields of byte strings. -/

namespace Linux95.Net

abbrev MacAddress := Fin 6 → UInt8

abbrev Ipv4Address := Fin 4 → UInt8

/-- `bytes[offset]`; the length checks of the parsers keep `offset` inside. -/
def byteAt (bytes : List UInt8) (offset : Nat) : UInt8 := bytes.getD offset 0

/-- The 16-bit field at `offset`; the two bytes occupy different bits. -/
def readBe16 (bytes : List UInt8) (offset : Nat) : Nat :=
  (byteAt bytes offset).toNat * 2 ^ 8 + (byteAt bytes (offset + 1)).toNat

theorem readBe16_lt (bytes : List UInt8) (offset : Nat) : readBe16 bytes offset < 2 ^ 16 := by
  have h := (byteAt bytes offset).toNat_lt
  have h' := (byteAt bytes (offset + 1)).toNat_lt
  unfold readBe16
  omega

def be16 (value : Nat) : List UInt8 := [UInt8.ofNat (value / 2 ^ 8), UInt8.ofNat value]

end Linux95.Net
