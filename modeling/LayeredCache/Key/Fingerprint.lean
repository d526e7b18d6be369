/-
This file gives every part of a key its 64-bit fingerprint.

The fingerprint state takes in one word at a time: the word is added and the sum multiplied by an
odd constant, so taking in a word is a bijection of the state. At the end the high bits, which
depend on most of the input, are rotated to the low end. A text or a byte list is first condensed
to one word.
-/

import LayeredCache.Key.Part

namespace LayeredCache.Key

namespace Fingerprint

/-- The odd constant that every absorbed word is multiplied by. -/
def multiplier : UInt64 := 0xf1357aea2e62a9c5

/-- Takes one word into the state. -/
def absorb (state word : UInt64) : UInt64 := (state + word) * multiplier

/-- Turns the state into the fingerprint: rotates it left by 26 bits. -/
def finish (state : UInt64) : UInt64 := (state <<< 26) ||| (state >>> 38)

/-- The fingerprint of a sequence of words. -/
def ofWords (words : List UInt64) : UInt64 := finish (words.foldl absorb 0)

/-- The two halves of the 128-bit product of the words, combined by exclusive or. -/
def foldProduct (x y : UInt64) : UInt64 :=
  let product := x.toNat * y.toNat
  UInt64.ofNat product ^^^ UInt64.ofNat (product >>> 64)

/-- The number whose bytes are listed from the lowest to the highest. -/
def littleEndian (bytes : List UInt8) : UInt64 :=
  bytes.foldr (fun byte high => high <<< 8 ||| byte.toUInt64) 0

/-- The number in the `width` bytes that start at `offset`. -/
def wordAt (bytes : List UInt8) (offset width : Nat) : UInt64 :=
  littleEndian ((bytes.drop offset).take width)

/-- The byte at `offset` as a word. -/
def byteAt (bytes : List UInt8) (offset : Nat) : UInt64 := (bytes.getD offset 0).toUInt64

/-- The two words that a digest of bytes starts from. -/
def digestSeed : UInt64 × UInt64 := (0x243f6a8885a308d3, 0x13198a2e03707344)

/-- The word that guards the second word of every block against being zero. -/
def blockGuard : UInt64 := 0xa4093822299f31d0

/-- Takes the first `blocks` blocks of sixteen bytes into the digest state. -/
def absorbBlocks : Nat → List UInt8 → UInt64 × UInt64 → UInt64 × UInt64
  | 0, _, state => state
  | blocks + 1, bytes, (first, second) =>
    absorbBlocks blocks (bytes.drop 16)
      (second, foldProduct (first ^^^ wordAt bytes 0 8) (blockGuard ^^^ wordAt bytes 8 8))

/-- Condenses bytes to one word. Of a long list, whole blocks are taken in first, and the last
sixteen bytes once more at the end. -/
def digest (bytes : List UInt8) : UInt64 :=
  let size := bytes.length
  let (first, second) := digestSeed
  let (first, second) :=
    if size = 0 then (first, second)
    else if size < 4 then
      (first ^^^ byteAt bytes 0,
        second ^^^ (byteAt bytes (size - 1) <<< 8 ||| byteAt bytes (size / 2)))
    else if size < 8 then (first ^^^ wordAt bytes 0 4, second ^^^ wordAt bytes (size - 4) 4)
    else if size ≤ 16 then (first ^^^ wordAt bytes 0 8, second ^^^ wordAt bytes (size - 8) 8)
    else
      let (first, second) := absorbBlocks ((size - 1) / 16) bytes (first, second)
      (first ^^^ wordAt bytes (size - 16) 8, second ^^^ wordAt bytes (size - 8) 8)
  foldProduct first second ^^^ UInt64.ofNat size

/-- The bytes of a text in UTF-8. -/
def utf8 (text : String) : List UInt8 := text.toUTF8.toList

/-- The words that stand for a text: its digest and an end mark. -/
def textWords (text : String) : List UInt64 := [digest (utf8 text), 255]

end Fingerprint

/-- The words that stand for a part: one for its kind, and those of its value. -/
def Part.words : Part → List UInt64
  | .null => [0]
  | .flag value => [1, if value then 1 else 0]
  | .int value => [2, value.toUInt64]
  | .word value => [3, value]
  | .text value => 4 :: Fingerprint.textWords value
  | .bytes value => [5, UInt64.ofNat value.length, Fingerprint.digest value]

/-- The fingerprint of a part. -/
def Part.fingerprint (part : Part) : UInt64 := Fingerprint.ofWords part.words

end LayeredCache.Key
