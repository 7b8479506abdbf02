import OpenMama.Lib.Decimal

/-!
# `playback`: captured messages in a file

`mamaCapture_saveMamaMsg` appends a header `SOURCE:TPORT:SYMBOL:LEN`, a delimiter and the bytes of a
message to a file.  `mamaPlaybackFileParser` reads them back, a header and a message at a time, by
one of two readers (`fileParser`).  A read or write outside a buffer or behind a mapping is `none`.

Numbers are those of a machine of 64 bits; memory is there for any block that is smaller than half
the address space.
-/

namespace Mama

namespace Playback

/-! ## Capture -/

def delimeter : UInt8 := 29

def colon : UInt8 := 58

/-- `HEADER_SIZE` and `MAX_BUFFER`. -/
def headerSize : Nat := 128

/-- A number as `%u` prints it, which takes the lower 32 bits. -/
def decimal (n : Nat) : List UInt8 := (Nat.toDigits 10 (n % 2 ^ 32)).map Char.toUInt8

/-- What is captured: three C strings and the byte buffer of the message. -/
structure Capture where
  source : List UInt8
  transport : List UInt8
  symbol : List UInt8
  bytes : List UInt8

/-- The text in `captureBuffer`. -/
def Capture.text (c : Capture) : List UInt8 :=
  c.source ++ [colon] ++ c.transport ++ [colon] ++ c.symbol ++ [colon] ++ decimal c.bytes.length

/-- `mamaCapture_saveMamaMsg`: the file afterwards.  The text goes through a buffer, with its
null. -/
def saveMamaMsg (file : List UInt8) (c : Capture) : Option (List UInt8) :=
  if c.text.length + 1 ≤ headerSize then some (file ++ c.text ++ [delimeter] ++ c.bytes) else none

/-! ## `fileParser` -/

inductive FileParserType
  | mmap
  | fileStream
  deriving DecidableEq, Repr

/-- `fileParserImpl`, with what the file holds. -/
structure FileParser where
  mType : FileParserType
  file : List UInt8
  mFileCurrentOffset : Nat

namespace FileParser

def isEndOfFile (p : FileParser) : Bool := p.mFileCurrentOffset ≥ p.file.length

def ahead (p : FileParser) : List UInt8 := p.file.drop p.mFileCurrentOffset

/-- `fileParser_readFileToBuffer`, for some bytes: those that are read. -/
def readFileToBuffer (p : FileParser) (destBufferSize : Nat) : FileParser × List UInt8 :=
  if destBufferSize = 0 then (p, [])
  else
    let bytes := p.ahead.take destBufferSize
    ({ p with mFileCurrentOffset := p.mFileCurrentOffset + bytes.length }, bytes)

/-- The loop of a mapped file from index `i`: what is written, the index afterwards, and how many
bytes are read.  The last byte of the file ends it before the index goes up. -/
def untilMapped (destBufferSize : Nat) (delim : UInt8) :
    Nat → List UInt8 → Option (List UInt8 × Nat × Nat)
  | _, [] => none
  | i, b :: rest =>
    if i ≥ destBufferSize then none
    else if rest = [] then some ([b], i, 1)
    else if b = delim then some ([b], i + 1, 1)
    else do
      let (bytes, j, n) ← untilMapped destBufferSize delim (i + 1) rest
      some (b :: bytes, j, n + 1)

/-- The loop of a stream.  At the end of the file, `fgetc` fails until the buffer is full, and once
more behind it. -/
def untilStream (destBufferSize : Nat) (delim : UInt8) :
    Nat → List UInt8 → Option (List UInt8 × Nat × Nat)
  | _, [] => none
  | i, b :: rest =>
    if i ≥ destBufferSize then none
    else if b = delim then some ([b], i + 1, 1)
    else do
      let (bytes, j, n) ← untilStream destBufferSize delim (i + 1) rest
      some (b :: bytes, j, n + 1)

/-- `fileParser_readFileToBufferUntilCharacter`: what is written to the buffer, and how many bytes
the caller is told. -/
def readFileToBufferUntilCharacter (p : FileParser) (destBufferSize : Nat) (delim : UInt8) :
    Option (FileParser × List UInt8 × Nat) := do
  let (bytes, i, n) ← match p.mType with
    | .mmap => untilMapped destBufferSize delim 0 p.ahead
    | .fileStream => untilStream destBufferSize delim 0 p.ahead
  -- the caller ends the text at `i - 1`
  if i = 0 then none
  else some ({ p with mFileCurrentOffset := p.mFileCurrentOffset + n }, bytes, i - 1)

end FileParser

/-! ## `mamaPlaybackFileParser` -/

/-- `mamaPlaybackFileParserImpl`, with what the message was last set from. -/
structure PlaybackFileParser where
  myFileReader : FileParser
  myMamaMsgLen : Nat
  myMsgBuffer : Option (List UInt8)
  myMamaMsg : List UInt8

namespace PlaybackFileParser

/-- `mamaPlaybackFileParser_allocate` and `mamaPlaybackFileParser_openFile`. -/
def openFile (type : FileParserType) (file : List UInt8) : PlaybackFileParser where
  myFileReader := ⟨type, file, 0⟩
  myMamaMsgLen := 0
  myMsgBuffer := none
  myMamaMsg := []

/-- What follows the last colon of a text, if there is one. -/
def afterLast : List UInt8 → Option (List UInt8)
  | [] => none
  | b :: rest =>
    match afterLast rest with
    | some text => some text
    | none => if b = colon then some rest else none

def isNumeric (text : List UInt8) : Bool := text.all fun b => (Char.ofUInt8 b).isDigit

/-- A `long` in an `int` in a `size_t`. -/
def toLength (n : Nat) : Nat :=
  if n % 2 ^ 32 < 2 ^ 31 then n % 2 ^ 32 else 2 ^ 64 - 2 ^ 32 + n % 2 ^ 32

/-- `mamaPlaybackFileParser_saveMsgLength`. -/
def saveMsgLength (p : PlaybackFileParser) (msgHeader : List UInt8) : PlaybackFileParser :=
  match afterLast msgHeader with
  | none => p
  | some text =>
    { p with
      myMamaMsgLen :=
        if isNumeric text then toLength (Lib.leadingNat (text.map Char.ofUInt8)) else 0 }

/-- `mamaPlaybackFileParser_getNextHeader`: the header, unless it returns `FALSE`. -/
def getNextHeader (p : PlaybackFileParser) : Option (PlaybackFileParser × Option (List UInt8)) := do
  if p.myFileReader.isEndOfFile then some (p, none)
  else
    let (reader, bytes, bytesCopied) ←
      p.myFileReader.readFileToBufferUntilCharacter headerSize delimeter
    let header := (bytes.take bytesCopied).takeWhile fun b => b ≠ 0
    some ({ p with myFileReader := reader }.saveMsgLength header, some header)

/-- The buffer with room for a message; a block of no bytes is one too. -/
def buffer (p : PlaybackFileParser) : List UInt8 :=
  match p.myMsgBuffer with
  | none => List.replicate p.myMamaMsgLen 0
  | some buffer => buffer ++ List.replicate (p.myMamaMsgLen - buffer.length) 0

/-- `mamaPlaybackFileParser_getNextMsg`: what the message is set from, unless it returns an error.
`mamaMsg_setNewBuffer` finds the payload by the first byte of the buffer; `accepts` is whether there
is one for it that takes the bytes. -/
def getNextMsg (accepts : UInt8 → List UInt8 → Bool) (p : PlaybackFileParser) :
    Option (PlaybackFileParser × Option (List UInt8)) :=
  if p.myMamaMsgLen ≥ 2 ^ 63 then
    -- there is no buffer
    if p.myFileReader.isEndOfFile then some ({ p with myMsgBuffer := none }, none) else none
  else if p.myFileReader.isEndOfFile then some ({ p with myMsgBuffer := some p.buffer }, none)
  else
    let (reader, bytes) := p.myFileReader.readFileToBuffer p.myMamaMsgLen
    let buffer := bytes ++ p.buffer.drop bytes.length
    let p := { p with myFileReader := reader, myMsgBuffer := some buffer }
    match buffer with
    | [] => none
    | first :: _ =>
      let msg := buffer.take p.myMamaMsgLen
      if accepts first msg then some ({ p with myMamaMsg := msg }, some msg) else some (p, none)

end PlaybackFileParser

end Playback

end Mama
