/-
Playing a WAVE file: `findWavHDR` and `fillBuffers` of kernel/process.cc and the
play_audio system call of kernel/sys.cc.

The header is a stretch of memory that chunks are read into at fixed offsets; a
read may store behind its 44 bytes.  A function gives nothing where a read
panics, where the processor would divide by zero, and where a loop has not ended
after the turns that it was given.  The waits for the device and for the timer
return; what is sent to the device is recorded.
-/

import AC97Kernel.Calls.Buffers
import AC97Kernel.Library.Loops

set_option autoImplicit false

namespace AC97Kernel

open Loops LittleEndian

/-- Memory from the first byte of a `WAVHeader` on. -/
structure WAVHeader where
  byte : Nat → UInt8

namespace WAVHeader

def size : Nat := 44

/-- `count` bytes from an offset on. -/
def window (header : WAVHeader) (offset count : Nat) : List UInt8 :=
  (List.range count).map fun index => header.byte (offset + index)

def store (header : WAVHeader) (offset : Nat) (bytes : List UInt8) : WAVHeader :=
  { byte := fun index =>
      if offset ≤ index then (bytes[index - offset]?).getD (header.byte index)
      else header.byte index }

def field (header : WAVHeader) (offset count : Nat) : Nat := decode (header.window offset count)

def magic (header : WAVHeader) : List UInt8 := header.window 8 4

def numChannels (header : WAVHeader) : Nat := header.field 22 2

def sampleRate (header : WAVHeader) : Nat := header.field 24 4

def sampleRateEq (header : WAVHeader) : Nat := header.field 28 4

def bitsPerSample (header : WAVHeader) : Nat := header.field 34 2

def dataSize (header : WAVHeader) : Nat := header.field 40 4

end WAVHeader

def fmtTag : List UInt8 := [0x66, 0x6D, 0x74, 0x20]

def dataTag : List UInt8 := [0x64, 0x61, 0x74, 0x61]

def waveTag : List UInt8 := [0x57, 0x41, 0x56, 0x45]

/-- The file and the header that `findWavHDR` works on. -/
structure WavSearch where
  file : OpenFileStruct
  header : WAVHeader

namespace WavSearch

/-- `file->read(((char *)wavhdr) + offset, count)`, whose result is not looked at. -/
def fetch (search : WavSearch) (offset count : Nat) : Option WavSearch :=
  let (transfer, file) := search.file.read count
  match transfer.outcome with
  | .returned _ => some { file := file, header := search.header.store offset transfer.bytes }
  | _ => none

/-- `file->seek(file->getOffset() + count)`, whose result is not looked at. -/
def skip (search : WavSearch) (count : Nat) : WavSearch :=
  { search with file := (search.file.seek ((search.file.getOffset + count) % 2 ^ 32)).2 }

/-- The tag of a chunk is not yet the wanted one; the tag of the format stands at
offset 12 of the header and that of the data at 36. -/
def misses (offset : Nat) (tag : List UInt8) (search : WavSearch) : Bool :=
  search.header.window offset 4 ≠ tag

/-- One turn of either loop: the length of the chunk, over its body, the next tag. -/
def turn (offset : Nat) (search : WavSearch) : Option WavSearch :=
  (search.fetch (offset + 4) 4).bind fun search =>
    (search.skip (search.header.field (offset + 4) 4)).fetch offset 4

end WavSearch

section Search

open WavSearch

/-- `findWavHDR` up to the read of the format and of the next tag. -/
def findFormat (turns : Nat) (search : WavSearch) : Option WavSearch :=
  (search.fetch 0 16).bind fun search =>
    (whileLoop (misses 12 fmtTag) (turn 12) turns search).bind fun search =>
      (search.fetch 16 4).bind fun search =>
        search.fetch 20 ((search.header.field 16 4 + 4) % 2 ^ 32)

/-- The rest of `findWavHDR`. -/
def findData (turns : Nat) (search : WavSearch) : Option WavSearch :=
  (whileLoop (misses 36 dataTag) (turn 36) turns search).bind fun search => search.fetch 40 4

/-- `turns` bounds the turns of each of the two loops. -/
def findWavHDR (turns : Nat) (search : WavSearch) : Option WavSearch :=
  (findFormat turns search).bind (findData turns)

end Search

def bufferSize : Nat := 131070

/-- One buffer that was loaded: its descriptor and its length field, and the bytes
read into it. -/
structure BufferLoad where
  index : Nat
  length : Nat
  bytes : List UInt8

/-- The loop of `fillBuffers`, with its own copies of two of the parameters. -/
structure Filling where
  file : OpenFileStruct
  dataSize : Nat
  totalSamples : Nat
  loads : List BufferLoad

namespace Filling

def load (filling : Filling) (index length count : Nat) : Option Filling :=
  let (transfer, file) := filling.file.read count
  match transfer.outcome with
  | .returned _ =>
      some
        { filling with
          file := file
          loads := filling.loads ++ [{ index := index, length := length, bytes := transfer.bytes }] }
  | _ => none

def turn (index : Nat) (filling : Filling) : Option Filling :=
  (filling.load index 0xFFFE bufferSize).map fun filling =>
    { filling with
      dataSize := (filling.dataSize + 2 ^ 32 - bufferSize) % 2 ^ 32
      totalSamples := (filling.totalSamples + 2 ^ 32 - 0xFFFF) % 2 ^ 32 }

end Filling

/-- What one call of `fillBuffers` gives the device: the last valid index, the
buffers, and the rate. -/
structure Filled where
  file : OpenFileStruct
  lastValid : Nat
  loads : List BufferLoad
  rate : Nat

/-- What is set up around the loading of the buffers. -/
def Filling.filled (filling : Filling) (sampleRate numBuffers : Nat) (last : Bool) : Filled :=
  { file := filling.file
    lastValid := (numBuffers % 2 ^ 8 + if last then 0 else 0xFF) % 2 ^ 8
    loads := filling.loads
    rate := sampleRate % 2 ^ 16 }

def fillBuffers (file : OpenFileStruct) (sampleRate : Nat) (last : Bool)
    (dataSize totalSamples : Nat) : Option Filled :=
  let numBuffers := if last then dataSize / bufferSize else 32
  let filled := forRange Filling.turn 0 numBuffers
    { file := file, dataSize := dataSize, totalSamples := totalSamples, loads := [] }
  let completed := filled.bind fun filling =>
    if last then
      filling.load numBuffers ((filling.totalSamples + 2 ^ 32 - 1) % 2 ^ 16) filling.dataSize
    else some filling
  completed.map fun filling => filling.filled sampleRate numBuffers last

/-- One turn of the loop of play_audio, as the device gets it; `duration` and
`jiffies` are what `AC97::play` waits. -/
structure Batch where
  filled : Filled
  duration : Nat
  jiffies : Nat

/-- `result` is the value of a `return` inside the loop. -/
structure Playing where
  file : OpenFileStruct
  dataSize : Nat
  totalSamples : Nat
  batches : List Batch
  result : Option Int

namespace Playing

def goesOn (playing : Playing) : Bool := playing.result.isNone && playing.dataSize > 0

/-- How much of the data a batch takes. -/
def batchSize (last : Bool) (dataSize : Nat) : Nat := if last then dataSize else 32 * bufferSize

/-- The loop behind the call of `fillBuffers`; `last` tells its two branches apart. -/
def played (header : WAVHeader) (last : Bool) (playing : Playing) (filled : Filled) : Playing :=
  let size := batchSize last playing.dataSize
  let duration := size / header.sampleRateEq
  let jiffies := size % header.sampleRateEq * 1000 % 2 ^ 32 / header.sampleRateEq
  let counted : Playing :=
    { playing with
      file := filled.file
      dataSize := if last then 0 else (playing.dataSize + 2 ^ 32 - 32 * bufferSize) % 2 ^ 32
      totalSamples :=
        if last then 0 else (playing.totalSamples + 2 ^ 32 - 0xFFFF * 32) % 2 ^ 32 }
  if duration = 2 ^ 32 - 1 then { counted with result := some (-1) }
  else
    { counted with
      batches := playing.batches ++
        [{ filled := filled, duration := duration, jiffies := jiffies }] }

def turn (header : WAVHeader) (playing : Playing) : Option Playing :=
  let last : Bool := playing.dataSize < 32 * bufferSize
  (fillBuffers playing.file header.sampleRate last playing.dataSize playing.totalSamples).bind
    fun filled =>
      if header.sampleRateEq = 0 then none else some (playing.played header last filled)

end Playing

/-- What the system call has sent to the device, and its result. -/
structure Played where
  batches : List Batch
  result : Int

/-- The loop of play_audio, once the header is there. -/
def stream (turns : Nat) (search : WavSearch) : Option Played :=
  let header := search.header
  (whileLoop Playing.goesOn (Playing.turn header) turns
    { file := search.file
      dataSize := header.dataSize
      totalSamples := header.sampleRate * (header.bitsPerSample / 8) % 2 ^ 32 / 2
      batches := []
      result := none }).map fun playing =>
    { batches := playing.batches, result := playing.result.getD 1 }

/-- `memory` is what the header holds when it is allocated. -/
def playAudio (turns : Nat) (memory : WAVHeader) : Option File → Option Played
  | none => some { batches := [], result := -1 }
  | some .u8250 => some { batches := [], result := -1 }
  | some (.openFile file) =>
      (findWavHDR turns { file := file, header := memory }).bind fun search =>
        if search.header.magic ≠ waveTag then some { batches := [], result := -1 }
        else stream turns search

end AC97Kernel
