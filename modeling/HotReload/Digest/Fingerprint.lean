import HotReload.Text.Bytes
import HotReload.Text.Hex

/-!
# Fingerprints

A short fingerprint of a text, for tokens that need not resist an attacker: a 64-bit hash of the
bytes, of whose sixteen hexadecimal digits the first eight are shown.

The hash keeps two lanes.  Inputs above sixteen bytes are read sixteen at a time, each pair of
words folded into the lanes by a full 128-bit product; the last sixteen bytes (or, of a short input,
overlapping words at both ends) enter last.
-/

namespace HotReload
namespace Fingerprint

/-- The product of two words in 128 bits, its halves combined by exclusive or. -/
def fold (x y : UInt64) : UInt64 :=
  let full := x.toNat * y.toNat
  UInt64.ofNat full ^^^ UInt64.ofNat (full / Nat.pow 2 64)

/-- The start of the first lane. -/
def laneA : UInt64 := 0x243F6A8885A308D3

/-- The start of the second lane. -/
def laneB : UInt64 := 0x13198A2E03707344

/-- Keeps a zero input word from erasing a lane. -/
def guard : UInt64 := 0xA4093822299F31D0

/-- The odd factor of the last step. -/
def factor : UInt64 := 0xF1357AEA2E62A9C5

/-- The number written by at most eight bytes, least significant first. -/
def little (bytes : List UInt8) : UInt64 :=
  bytes.foldr (fun b n => (n <<< 8) ||| b.toUInt64) 0

/-- The lanes after reading the given number of sixteen-byte pairs of words. -/
def lanes : Nat → List UInt8 → UInt64 → UInt64 → UInt64 × UInt64
  | 0, _, a, b => (a, b)
  | n + 1, bytes, a, b =>
    let x := little (bytes.take 8)
    let y := little ((bytes.drop 8).take 8)
    lanes n (bytes.drop 16) b (fold (a ^^^ x) (guard ^^^ y))

/-- The words that enter the lanes last. -/
def ends (bytes : List UInt8) : UInt64 × UInt64 :=
  let n := bytes.length
  if n ≥ 16 then
    let tail := bytes.drop (n - 16)
    (little (tail.take 8), little (tail.drop 8))
  else if n ≥ 8 then (little (bytes.take 8), little (bytes.drop (n - 8)))
  else if n ≥ 4 then (little (bytes.take 4), little (bytes.drop (n - 4)))
  else
    match bytes with
    | [] => (0, 0)
    | low :: _ =>
      let mid := bytes.getD (n / 2) 0
      let high := bytes.getD (n - 1) 0
      (low.toUInt64, (high.toUInt64 <<< 8) ||| mid.toUInt64)

/-- The mixed bytes of an input. -/
def mixed (bytes : List UInt8) : UInt64 :=
  let (a, b) := lanes ((bytes.length - 1) / 16) bytes laneA laneB
  let (x, y) := ends bytes
  fold (a ^^^ x) (b ^^^ y) ^^^ UInt64.ofNat bytes.length

/-- The 64-bit hash of a list of bytes. -/
def hash (bytes : List UInt8) : UInt64 :=
  let h := mixed bytes * factor
  (h <<< 26) ||| (h >>> 38)

/-- The first eight of the sixteen hexadecimal digits of the hash. -/
def ofBytes (bytes : List UInt8) : List Char := (Hex.fixed 16 (hash bytes).toNat).take 8

/-- The fingerprint of a text's UTF-8 bytes. -/
def ofText (s : String) : List Char := ofBytes (Text.utf8 s)

theorem length_ofBytes (bytes : List UInt8) : (ofBytes bytes).length = 8 := by
  simp [ofBytes]

end Fingerprint
end HotReload
