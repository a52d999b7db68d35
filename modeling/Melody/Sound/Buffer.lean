/-!
# Sound buffers

A sound is the samples of its left and its right channel. In memory each frame takes four bytes,
those of the left sample first and of each sample the low byte first. `checksum` is the 32-bit
cyclic redundancy check of these bytes.
-/

set_option autoImplicit false

namespace Melody.Sound

structure Buffer where
  id : Nat
  left : List Int16
  right : List Int16
deriving DecidableEq, Repr

namespace Buffer

def sampleBytes (sample : Int16) : List UInt8 :=
  let bits := sample.toUInt16
  [bits.toUInt8, (bits >>> 8).toUInt8]

def frame (left right : Int16) : List UInt8 :=
  sampleBytes left ++ sampleBytes right

def polynomial : UInt32 := 0xEDB88320

def shiftBit (word : UInt32) : UInt32 :=
  if word &&& 1 = 1 then (word >>> 1) ^^^ polynomial else word >>> 1

def remainders : Array UInt32 :=
  (Array.range 256).map fun i => (List.range 8).foldl (fun word _ => shiftBit word) i.toUInt32

def addByte (sum : UInt32) (byte : UInt8) : UInt32 :=
  (remainders[((sum ^^^ byte.toUInt32) &&& 0xFF).toNat]?).getD 0 ^^^ (sum >>> 8)

def checksum (b : Buffer) : UInt32 :=
  (b.left.zip b.right).foldl (fun sum f => (frame f.1 f.2).foldl addByte sum) 0xFFFFFFFF ^^^
    0xFFFFFFFF

def frames (b : Buffer) : Nat := b.left.length

def isCentred (b : Buffer) : Bool := b.left == b.right

def levels (b : Buffer) : List Int := b.left.map Int16.toInt

def least (b : Buffer) : Int := b.levels.foldl min (b.levels.headD 0)

def greatest (b : Buffer) : Int := b.levels.foldl max (b.levels.headD 0)

def sum (b : Buffer) : Int := b.levels.foldl (· + ·) 0

def probes (k : Nat) (b : Buffer) : List Int :=
  let samples := b.levels.toArray
  (List.range k).map fun i => (samples[i * (samples.size - 1) / (k - 1)]?).getD 0

end Buffer

end Melody.Sound
