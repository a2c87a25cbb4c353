import Mathlib.Data.Vector.Basic
import USKD.Modem.Parser
import USKD.Utils.Buffer

/-!
# `ReaderFTP`: the bytes of an FTP session

While the updater waits for bytes of the file, the receive interrupt hands every symbol to
`AppendByte`.  It reads a line until `LF` into `buffer_command`, and after a line
`+FTPGET: 2,n` the next `n` symbols into `buffer_data`; after `+FTPGET: 1,1` it repeats the
request, and any other `+FTPGET: 1,…` is the end of the file.

Both arrays are written without a bound check: a store behind the array is `none`.  The
32 bytes of `buffer_command` are kept up to `pointer_command`, with the zero that ends a line
that was not dropped; `buffer_data` is kept whole, as its first bytes are read whatever
`pointer_data` is.
-/

namespace USKD

/-- What the loader sends to the modem, each line with a CR behind it. -/
inductive Transmit
  /-- A fixed line. -/
  | text (message : String)
  /-- `AT+FTPGET=2,` and the number of bytes asked for. -/
  | ftpGet (needBytes : ℕ)
deriving DecidableEq

/-- The line that is sent. -/
def Transmit.line : Transmit → List UInt8
  | text message => ascii message
  | ftpGet needBytes => ascii "AT+FTPGET=2," ++ decimal needBytes

/-- The static data of `ReaderFTP`. -/
structure ReaderFTP where
  receivedCommand : Bool
  /-- `buffer_command` up to `pointer_command`. -/
  command : Buffer 32
  needBytes : ℕ
  bytesFromFTP : ℤ
  pointerData : ℕ
  bufferData : Vector UInt8 64
  requestedBytesReceived : Bool
  receivedFTPGET_1_0 : Bool
deriving DecidableEq

/-- `array[pointer++] = symbol`. -/
def Buffer.store {capacity : ℕ} (b : Buffer capacity) (symbol : UInt8) : Option (Buffer capacity) :=
  if b.bytes.length < capacity then some (b.push symbol).1 else none

namespace ReaderFTP

/-- The data at boot. -/
def boot : ReaderFTP where
  receivedCommand := false
  command := .clear
  needBytes := 0
  bytesFromFTP := 0
  pointerData := 0
  bufferData := .replicate 64 0
  requestedBytesReceived := false
  receivedFTPGET_1_0 := false

/-- `ReaderFTP::Reset`. -/
def reset (r : ReaderFTP) : ReaderFTP :=
  { r with
    command := .clear
    receivedCommand := false
    pointerData := 0
    needBytes := 0
    requestedBytesReceived := false }

/-- `ReaderFTP::ReceiveBytes`. -/
def receiveBytes (r : ReaderFTP) (numBytes : ℕ) : Transmit × ReaderFTP :=
  (.ftpGet numBytes, { r.reset with needBytes := numBytes })

/-- A byte of the file. -/
def appendData (r : ReaderFTP) (symbol : UInt8) : Option ReaderFTP :=
  if h : r.pointerData < 64 then
    let r := { r with
      bufferData := r.bufferData.set r.pointerData symbol
      pointerData := r.pointerData + 1 }
    if (r.pointerData : ℤ) = r.bytesFromFTP then
      some { r with receivedCommand := false, command := .clear, requestedBytesReceived := true }
    else some r
  else none

/-- The end of a line, which stands zero-terminated in `command`. -/
def endOfLine (r : ReaderFTP) : Option (List Transmit × ReaderFTP) := do
  let line := beforeZero r.command.bytes
  if (← Parser.getWord line 1) = ascii "+FTPGET" then
    let secondWord ← Parser.getWord line 2
    if secondWord.head? = some 0x31 then
      let thirdWord ← Parser.getWord line 3
      -- "1,1": the file is open; "1,0" and everything else: it has ended
      if thirdWord.head? = some 0x31 then
        pure ([.ftpGet r.needBytes], { r with command := .clear })
      else pure ([], { r with receivedFTPGET_1_0 := true })
    else if secondWord.head? = some 0x32 then
      let bytesFromFTP ← atoi (← Parser.getWord line 3)
      if 0 < bytesFromFTP then pure ([], { r with bytesFromFTP, receivedCommand := true })
      else pure ([], { r with bytesFromFTP, receivedCommand := false, command := .clear })
    else pure ([], r)
  else pure ([], { r with receivedCommand := false, command := .clear })

/-- `ReaderFTP::AppendByte`. -/
def appendByte (r : ReaderFTP) (symbol : UInt8) : Option (List Transmit × ReaderFTP) :=
  if r.receivedCommand then (r.appendData symbol).map fun r => ([], r)
  else if symbol = 0x0D then some ([], r)
  else if symbol = 0x0A then
    if r.command.bytes.length = 0 then some ([], r)
    else (r.command.store 0).bind fun command => endOfLine { r with command }
  else (r.command.store symbol).map fun command => ([], { r with command })

/-- The bytes of the file received since the last request. -/
def received (r : ReaderFTP) : List UInt8 := r.bufferData.toList.take r.pointerData

/-- The first four bytes of `buffer_data`, as `memcpy` reads them. -/
def firstWord (r : ReaderFTP) : UInt32 :=
  r.bufferData[0].toUInt32 + (r.bufferData[1].toUInt32 <<< 8) +
    (r.bufferData[2].toUInt32 <<< 16) + (r.bufferData[3].toUInt32 <<< 24)

end ReaderFTP

end USKD
