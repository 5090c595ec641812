/-
Bytes, and big-endian numbers in them.
-/
import Mathlib.Data.List.Basic

namespace EtonifyCore.Core

abbrev Bytes := List UInt8

def byte (b : Bytes) (i : ℕ) : ℕ := (b.getD i 0).toNat

def uint16 (b : Bytes) (i : ℕ) : ℕ := byte b i * 256 + byte b (i + 1)

def putUint16 (n : ℕ) : Bytes := [UInt8.ofNat (n / 256), UInt8.ofNat n]

theorem byte_lt (b : Bytes) (i : ℕ) : byte b i < 256 := (b.getD i 0).toNat_lt

theorem uint16_lt (b : Bytes) (i : ℕ) : uint16 b i < 65536 := by
  have hhigh := byte_lt b i
  have hlow := byte_lt b (i + 1)
  unfold uint16
  omega

theorem byte_append {b : Bytes} {i : ℕ} (h : i < b.length) (rest : Bytes) : byte (b ++ rest) i = byte b i := by
  unfold byte
  rw [List.getD_eq_getElem?_getD, List.getElem?_append_left h, List.getD_eq_getElem?_getD]

theorem putUint16_toNat (n : ℕ) : (UInt8.ofNat (n / 256)).toNat * 256 + (UInt8.ofNat n).toNat = n % 65536 := by
  have hhigh : (UInt8.ofNat (n / 256)).toNat = n / 256 % 256 := UInt8.toNat_ofNat
  have hlow : (UInt8.ofNat n).toNat = n % 256 := UInt8.toNat_ofNat
  rw [hhigh, hlow]
  omega

end EtonifyCore.Core
