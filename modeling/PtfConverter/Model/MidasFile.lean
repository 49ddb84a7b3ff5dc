import PtfConverter.Model.MidasEvent

/-! # TMidasFile: reading and writing uncompressed files

A file is a stream of events, each a 16-byte header and its data. `read()` may return fewer bytes
than it was asked for, or fail, as the operating system decides call by call; `readpipe` reads on
until it has all bytes or the file ends. The remaining bytes of the input file, the bytes written
to the output file and `errno` are part of the state.
-/

namespace PtfConverter.Midas

/-- How the operating system answers: what a call of `read()` offers at most, what a call of
`write()` takes of a length, the error texts, and the contents of new memory. -/
structure System where
  read : ℕ → Except ℤ ℕ
  write : ℕ → ℕ → Except ℤ ℕ
  strerror : ℤ → String
  malloc : ℕ → Byte

/-- An open input file: its bytes that are not read yet, and the calls of `read()` so far. -/
structure Input where
  unread : List Byte
  calls : ℕ
  errno : ℤ

/-- An open output file: the bytes in it, and the calls of `write()` so far. -/
structure Output where
  bytes : List Byte
  calls : ℕ

structure TMidasFile where
  fLastErrno : ℤ
  fLastError : String
  fDoByteSwap : Bool
  fFile : Input
  fOutFile : Output

/-- What `readpipe` returns, and the buffer as far as it is filled. -/
structure Piped where
  rd : ℤ
  buf : List Byte
  fd : Input

/-- The loop of `readpipe`. -/
def readpipe (system : System) (fd : Input) (length count : ℕ) (buf : List Byte) : Piped :=
  if 0 < length then
    match system.read fd.calls with
    | .error errno => ⟨-1, buf, { fd with calls := fd.calls + 1, errno := errno }⟩
    | .ok offered =>
        let rd := min offered (min length fd.unread.length)
        let next := { fd with unread := fd.unread.drop rd, calls := fd.calls + 1 }
        if 0 < rd then readpipe system next (length - rd) (count + rd) (buf ++ fd.unread.take rd)
        else ⟨count, buf, next⟩
  else ⟨count, buf, fd⟩
termination_by length

/-- A null data pointer: every access faults. -/
def Memory.null : Memory := .strict []

namespace EventHeader

/-- The header as it lies in memory and in the file. -/
def bytes (header : EventHeader) : List Byte :=
  Bytes.encode 2 header.fEventId.toNat ++ (Bytes.encode 2 header.fTriggerMask.toNat ++
    (Bytes.encode 4 header.fSerialNumber.toNat ++ (Bytes.encode 4 header.fTimeStamp.toNat ++
      Bytes.encode 4 header.fDataSize.toNat)))

def ofBytes (bytes : List Byte) : EventHeader where
  fEventId := BitVec.ofNat 16 (Bytes.value (bytes.take 2))
  fTriggerMask := BitVec.ofNat 16 (Bytes.value ((bytes.drop 2).take 2))
  fSerialNumber := BitVec.ofNat 32 (Bytes.value ((bytes.drop 4).take 4))
  fTimeStamp := BitVec.ofNat 32 (Bytes.value ((bytes.drop 8).take 4))
  fDataSize := BitVec.ofNat 32 (Bytes.value ((bytes.drop 12).take 4))

def SwapBytesEventHeader (header : EventHeader) : EventHeader where
  fEventId := BitVec.ofNat 16 (Bytes.value (Bytes.encode 2 header.fEventId.toNat).reverse)
  fTriggerMask := BitVec.ofNat 16 (Bytes.value (Bytes.encode 2 header.fTriggerMask.toNat).reverse)
  fSerialNumber := swapped header.fSerialNumber
  fTimeStamp := swapped header.fTimeStamp
  fDataSize := swapped header.fDataSize

end EventHeader

/-- An event that was just read: no bank list yet. -/
def TMidasEvent.fresh (header : EventHeader) (memory : Memory) : TMidasEvent :=
  ⟨header, memory, 0, none⟩

namespace TMidasFile

/-- A new object with both files open; the host is little-endian. -/
def opened (unread : List Byte) : TMidasFile where
  fLastErrno := 0
  fLastError := ""
  fDoByteSwap := (Bytes.encode 4 0x12345678).head? != some 0x78
  fFile := ⟨unread, 0, 0⟩
  fOutFile := ⟨[], 0⟩

def failed (file : TMidasFile) (errno : ℤ) (error : String) : TMidasFile :=
  { file with fLastErrno := errno, fLastError := error }

/-- `Read`: false, with the reason, or true and the next event. -/
def Read (system : System) (file : TMidasFile) : Except Fault (Bool × TMidasEvent × TMidasFile) :=
  let head := readpipe system file.fFile 16 0 []
  let file := { file with fFile := head.fd }
  let fEventHeader := EventHeader.ofBytes (head.buf ++ List.replicate (16 - head.buf.length) 0)
  if head.rd = 0 then .ok (false, .fresh fEventHeader .null, file.failed 0 "EOF")
  else if head.rd ≠ 16 then
    .ok (false, .fresh fEventHeader .null,
      file.failed file.fFile.errno (system.strerror file.fFile.errno))
  else
    let fEventHeader := if file.fDoByteSwap then fEventHeader.SwapBytesEventHeader else fEventHeader
    if ¬ fEventHeader.IsGoodSize then
      .ok (false, .fresh fEventHeader .null, file.failed (-1) "Invalid event size")
    else
      let body := readpipe system file.fFile fEventHeader.fDataSize.toNat 0 []
      let file := { file with fFile := body.fd }
      let unset := (List.range (fEventHeader.fDataSize.toNat - body.buf.length)).map fun i =>
        system.malloc (body.buf.length + i)
      let fData := Memory.strict (body.buf ++ unset)
      if body.rd ≠ fEventHeader.fDataSize.toInt then
        .ok (false, .fresh fEventHeader fData,
          file.failed file.fFile.errno (system.strerror file.fFile.errno))
      else do
        let (fData, _) ← SwapBytes fData fEventHeader.fDataSize false
        return (true, .fresh fEventHeader fData, file)

/-- `write()` of some bytes: how many were taken, or -1. -/
def write (system : System) (out : Output) (bytes : List Byte) : ℤ × Output :=
  match system.write out.calls bytes.length with
  | .error _ => (-1, { out with calls := out.calls + 1 })
  | .ok taken => (min taken bytes.length, ⟨out.bytes ++ bytes.take taken, out.calls + 1⟩)

/-- `Write`: the header, and the data if the header was taken. -/
def Write (system : System) (file : TMidasFile) (event : TMidasEvent) :
    Except Fault (Bool × TMidasFile) := do
  let (wr, fOutFile) := write system file.fOutFile event.fEventHeader.bytes
  if wr ≠ 16 then return (false, { file with fOutFile := fOutFile })
  else do
    let data ← event.fData.readBytes 0 event.fEventHeader.fDataSize.toNat
    let (wr, fOutFile) := write system fOutFile data
    return (wr != 0, { file with fOutFile := fOutFile })

end TMidasFile

end PtfConverter.Midas
