import USKD.Lib.Run
import USKD.Loader.Programmer
import USKD.Loader.ReaderFTP
import USKD.Modem.Power
import USKD.Utils.Math

/-!
# The loader

`SIM868` sets the modem up and then hands every answer to `Updater`, which fetches the new
firmware over FTP: four bytes of version, four of checksum, then the image, 64 bytes at a
time, into the staging area.  If the checksum is right the image is copied over the
application, again and again until the copy has that checksum too.

A step of the loader is a symbol in the receive interrupt, `Modem::Update` up to its call of
`InData::Update`, one answer that `InData::Update` hands to `SIM868::Update`, or one round of
the copy loop.  The copy loop keeps the main loop busy, so that in it only symbols arrive.
Times and answers are arbitrary: which answers the modem really gives in which state is not
restricted here.  An answer is handled without an interrupt in between.
-/

namespace USKD

open NorFlash

/-- The states of the loader's `SIM868`. -/
inductive Loader.SIM868.State
  | START
  | WAIT_ATE0
  | WAIT_BAUDRADE
  | WAIT_GSMBUSY
  | WAIT_CREG_INIT
  | WAIT_REGISTRATION
  | WAIT_IP_INITIAL
  | RUNNING_UPDATER
deriving DecidableEq

/-- `Updater::State::E`. -/
inductive Updater.State
  | IDLE
  | NEED_SAPBR_3_GPRS
  | NEED_SAPBR_3_APN
  | NEED_SAPBR_3_USER
  | NEED_SAPBR_3_PWD
  | NEED_SAPBR_1_1
  | NEED_FTPCID
  | NEED_FTPSERV
  | NEED_FTPUN
  | NEED_FTPPW
  | NEED_FTPGETPATH
  | NEED_SET_NAME_FIRMWARE
  | NEED_REQUEST_CONNECT
  | NEED_WAIT_CONNECT
  | GET_BYTES_VER
  | GET_BYTES_CRC
  | GET_BYTES_FIRMWARE
  | COMPLETED
deriving DecidableEq

/-- The static data of the loader's `SIM868`. -/
structure Loader.SIM868 where
  state : Loader.SIM868.State
  meter : TimeMeterMS
  levelSignal : List UInt8

/-- The static data of `Updater`. -/
structure Updater where
  state : Updater.State
  stateMeter : TimeMeterMS
  version : UInt32
  sourceCrc : UInt32
  crc : UInt32

/-- The data of the loader.  `copying` is the local `written_bytes` while the copy loop
runs. -/
structure Loader where
  modem : Modem
  sim868 : Loader.SIM868
  updater : Updater
  reader : ReaderFTP
  programmer : Programmer
  copying : Option ℕ

namespace Loader

/-- The state at boot, over whatever the flash holds. -/
def boot (cells : Memory) : Loader where
  modem := .boot
  sim868 := ⟨.START, .reset 0, ascii "0"⟩
  updater := ⟨.IDLE, .reset 0, 0, 0, 0⟩
  reader := .boot
  programmer := ⟨0, 0, [], [], ⟨cells, []⟩⟩
  copying := none

/-- The flash. -/
def rom (s : Loader) : HAL_ROM := s.programmer.rom

/-- `SIM868::Reset`. -/
def resetSIM868 (s : Loader) : Loader := { s with sim868 := { s.sim868 with state := .START } }

/-- `Updater::Reset`. -/
def resetUpdater (s : Loader) : Loader := { s with updater := { s.updater with state := .IDLE } }

/-- `Loader::Reset`. -/
def reset (s : Loader) : Loader := s.resetSIM868.resetUpdater

/-! ## `Updater` -/

/-- `Updater::IsCompleted`. -/
def isCompleted (s : Loader) : Bool := s.updater.state = .COMPLETED

/-- `Updater::InModeReceiveDataFromFTP`. -/
def inModeReceiveDataFromFTP (s : Loader) : Bool :=
  s.updater.state = .GET_BYTES_VER ∨ s.updater.state = .GET_BYTES_CRC ∨
    s.updater.state = .GET_BYTES_FIRMWARE

/-- `Updater::SetState`. -/
def setState (s : Loader) (now : UInt32) (state : Updater.State) : Loader :=
  { s with updater := { s.updater with state, stateMeter := .reset now } }

/-- `if (Updater::MeterIsRunning(time)) { … }`: `Loader::Reset` when the time is over. -/
def meterIsRunning (s : Loader) (now time : UInt32)
    (body : Loader → Option (List Transmit × Loader)) : Option (List Transmit × Loader) :=
  if s.updater.stateMeter.elapsedTime now < time then body s else some ([], s.reset)

/-- `ReaderFTP::ReceiveBytes`. -/
def receiveBytes (s : Loader) (numBytes : ℕ) : List Transmit × Loader :=
  let (command, reader) := s.reader.receiveBytes numBytes
  ([command], { s with reader })

/-- A state that waits for `OK`: after it the next state is entered and its command sent. -/
def waitOK (s : Loader) (now time : UInt32) (answer : List UInt8) (next : Updater.State)
    (command : String) : Option (List Transmit × Loader) :=
  s.meterIsRunning now time fun s =>
    if answer = ascii "OK" then some ([.text command], s.setState now next) else some ([], s)

/-- `NEED_WAIT_CONNECT`. -/
def waitConnect (s : Loader) (now : UInt32) (answer : List UInt8) :
    Option (List Transmit × Loader) :=
  s.meterIsRunning now 75000 fun s => do
    if (← Parser.getWord answer 1) = ascii "+FTPGET" then
      if answer = ascii "+FTPGET: 1,1" then
        let s := s.setState now .GET_BYTES_VER
        pure ({ s with updater := { s.updater with crc := 0, version := 0 } }.receiveBytes 4)
      else if answer = ascii "+FTPGET: 1,77" then
        pure ([], { s with updater := { s.updater with state := .COMPLETED } })
      else pure ([], s)
    else pure ([], s)

/-- `GET_BYTES_VER`. -/
def getBytesVer (s : Loader) (now : UInt32) : Option (List Transmit × Loader) :=
  s.meterIsRunning now 75000 fun s =>
    if s.reader.requestedBytesReceived then
      let s := { s with updater := { s.updater with version := s.reader.firstWord } }
      some ((s.setState now .GET_BYTES_CRC).receiveBytes 4)
    else some ([], s)

/-- `GET_BYTES_CRC`. -/
def getBytesCrc (s : Loader) (now : UInt32) : Option (List Transmit × Loader) :=
  s.meterIsRunning now 75000 fun s =>
    if s.reader.requestedBytesReceived then
      let s := { s with
        updater := { s.updater with sourceCrc := s.reader.firstWord }
        programmer := s.programmer.prepare HAL_ROM.ADDR_STORAGE }
      let (commands, s) := (s.setState now .GET_BYTES_FIRMWARE).receiveBytes 64
      some (commands, { s with reader := { s.reader with receivedFTPGET_1_0 := false } })
    else some ([], s)

/-- The end of the file: the staged image is checked, and the copy loop entered. -/
def endOfFile (chip : Chip) (s : Loader) : Option (List Transmit × Loader) := do
  let programmer ← s.programmer.writeBytes chip s.reader.received
  let programmer ← programmer.closeSession chip
  let crc := Math.calculateCRC
    (programmer.rom.cells.read HAL_ROM.ADDR_STORAGE programmer.writtenBytes)
  let s := { s with programmer, updater := { s.updater with crc } }
  -- without the right checksum everything begins again, and nothing is copied
  if crc = s.updater.sourceCrc then
    let staged := .staged programmer.writtenBytes s.updater.sourceCrc programmer.rom.cells
    pure ([], { s with
      programmer := { programmer with
        rom := { programmer.rom with trace := programmer.rom.trace ++ [staged] } }
      copying := some programmer.writtenBytes })
  else pure ([], s.reset)

/-- `GET_BYTES_FIRMWARE`. -/
def getBytesFirmware (chip : Chip) (s : Loader) (now : UInt32) :
    Option (List Transmit × Loader) :=
  s.meterIsRunning now 75000 fun s =>
    if s.reader.receivedFTPGET_1_0 then s.endOfFile chip
    else if s.reader.requestedBytesReceived then
      (s.programmer.writeBytes chip s.reader.received).map fun programmer =>
        { s with programmer, updater := { s.updater with stateMeter := .reset now } }.receiveBytes 64
    else some ([], s)

/-- A chunk is there, and the file has not ended: it is written and the next one asked for. -/
theorem getBytesFirmware_of_requested {chip : Chip} {s : Loader} {now : UInt32}
    (htime : s.updater.stateMeter.elapsedTime now < 75000)
    (hmore : s.reader.receivedFTPGET_1_0 = false) (hreader : s.reader.requestedBytesReceived) :
    s.getBytesFirmware chip now =
      (s.programmer.writeBytes chip s.reader.received).map fun programmer =>
        { s with programmer, updater := { s.updater with stateMeter := .reset now } }.receiveBytes
          64 := by
  rw [getBytesFirmware, meterIsRunning, if_pos htime, if_neg (by simp [hmore]), if_pos hreader]

/-- `Updater::Update`. -/
def updateUpdater (chip : Chip) (s : Loader) (now : UInt32) (answer : List UInt8) :
    Option (List Transmit × Loader) :=
  match s.updater.state with
  | .IDLE => some ([], { s with updater := { s.updater with state := .NEED_SAPBR_3_GPRS } })
  | .NEED_SAPBR_3_GPRS =>
      some ([.text "AT+SAPBR=3,1,\"CONTYPE\",\"GPRS\""], s.setState now .NEED_SAPBR_3_APN)
  | .NEED_SAPBR_3_APN =>
      s.waitOK now 85000 answer .NEED_SAPBR_3_USER "AT+SAPBR=3,1,\"APN\",\"internet\""
  | .NEED_SAPBR_3_USER =>
      s.waitOK now 85000 answer .NEED_SAPBR_3_PWD "AT+SAPBR=3,1,\"USER\",\"\""
  | .NEED_SAPBR_3_PWD =>
      s.waitOK now 85000 answer .NEED_SAPBR_1_1 "AT+SAPBR=3,1,\"PWD\",\"\""
  | .NEED_SAPBR_1_1 => s.waitOK now 85000 answer .NEED_FTPCID "AT+SAPBR=1,1"
  | .NEED_FTPCID => s.waitOK now 85000 answer .NEED_FTPSERV "AT+FTPCID=1"
  | .NEED_FTPSERV =>
      s.waitOK now 10000 answer .NEED_FTPUN "AT+FTPSERV=\"s92153gg.beget.tech\""
  | .NEED_FTPUN => s.waitOK now 10000 answer .NEED_FTPPW "AT+FTPUN=\"s92153gg_1\""
  | .NEED_FTPPW => s.waitOK now 10000 answer .NEED_FTPGETPATH "AT+FTPPW=\"Qwerty123!\""
  | .NEED_FTPGETPATH =>
      s.waitOK now 10000 answer .NEED_SET_NAME_FIRMWARE "AT+FTPGETPATH=\"/\""
  | .NEED_SET_NAME_FIRMWARE =>
      s.waitOK now 10000 answer .NEED_REQUEST_CONNECT "AT+FTPGETNAME=\"USKD.frm\""
  | .NEED_REQUEST_CONNECT => s.waitOK now 10000 answer .NEED_WAIT_CONNECT "AT+FTPGET=1"
  | .NEED_WAIT_CONNECT => s.waitConnect now answer
  | .GET_BYTES_VER => s.getBytesVer now
  | .GET_BYTES_CRC => s.getBytesCrc now
  | .GET_BYTES_FIRMWARE => s.getBytesFirmware chip now
  | .COMPLETED => some ([], s)

/-! ## `SIM868` -/

/-- `SIM868::State::Set`. -/
def setSIM868 (s : Loader) (now : UInt32) (state : SIM868.State) : Loader :=
  { s with sim868 := { s.sim868 with state, meter := .reset now } }

/-- `if (SIM868::MeterIsRunning(time)) { … }`, with `<=` where `Updater` has `<`. -/
def meterIsRunningSIM868 (s : Loader) (now time : UInt32)
    (body : Loader → Option (List Transmit × Loader)) : Option (List Transmit × Loader) :=
  if s.sim868.meter.elapsedTime now ≤ time then body s else some ([], s.reset)

/-- A state that waits for a fixed answer. -/
def waitAnswer (s : Loader) (now : UInt32) (answer : List UInt8) (expected : String)
    (next : SIM868.State) (commands : List Transmit) : Option (List Transmit × Loader) :=
  s.meterIsRunningSIM868 now 10000 fun s =>
    if answer = ascii expected then some (commands, s.setSIM868 now next) else some ([], s)

/-- `SIM868::ProcessUnsolicited`.  `levelSignal` is an array of 16 bytes that the level is
copied to without a check. -/
def processUnsolicited (s : Loader) (answer : List UInt8) : Option (Bool × Loader) := do
  let firstWord ← Parser.getWord answer 1
  if answer = ascii "CLOSED" then pure (true, s.reset)
  else if firstWord = ascii "+CSQ" then
    let levelSignal ← Parser.getWord answer 2
    if levelSignal.length < 16 then
      pure (true, { s with sim868 := { s.sim868 with levelSignal } })
    else none
  else if answer = ascii "SEND FAIL" then pure (true, s.reset)
  else if answer = ascii "SEND OK" then pure (true, s)
  else pure (false, s)

/-- The `switch` of `SIM868::Update`. -/
def dispatch (chip : Chip) (s : Loader) (now : UInt32) (answer : List UInt8) :
    Option (List Transmit × Loader) :=
  match s.sim868.state with
  | .START =>
      let s := s.setSIM868 now .WAIT_ATE0
      some ([.text "ATE0"], { s with sim868 := { s.sim868 with levelSignal := ascii "0" } })
  | .WAIT_ATE0 => s.waitAnswer now answer "OK" .WAIT_BAUDRADE [.text "AT+IPR=115200"]
  | .WAIT_BAUDRADE => s.waitAnswer now answer "RDY" .WAIT_GSMBUSY [.text "AT+GSMBUSY=1"]
  | .WAIT_GSMBUSY => s.waitAnswer now answer "OK" .WAIT_CREG_INIT [.text "AT+CREG=1"]
  | .WAIT_CREG_INIT => s.waitAnswer now answer "OK" .WAIT_REGISTRATION []
  | .WAIT_REGISTRATION =>
      s.meterIsRunningSIM868 now 60000 fun s => do
        if (← Parser.getWord answer 1) = ascii "+CREG" then
          let stat := ((← Parser.getWord answer 2).headD 0) &&& 0x0F
          if stat = 1 ∨ stat = 5 then
            pure ([.text "AT+CIPSTATUS"], s.setSIM868 now .WAIT_IP_INITIAL)
          else pure ([], s)
        else pure ([], s)
  | .WAIT_IP_INITIAL =>
      s.meterIsRunningSIM868 now 10000 fun s => do
        if (← Parser.getWord answer 3) = ascii "INITIAL" then
          pure ([], { s with sim868 := { s.sim868 with state := .RUNNING_UPDATER } })
        else pure ([], s)
  | .RUNNING_UPDATER => s.updateUpdater chip now answer

/-- `SIM868::Update`. -/
def updateSIM868 (chip : Chip) (s : Loader) (now : UInt32) (answer : List UInt8) :
    Option (List Transmit × Loader) := do
  let (processed, s) ← s.processUnsolicited answer
  if processed then pure ([], s) else s.dispatch chip now answer

/-! ## Steps -/

/-- A round of the copy loop; the loop is left when the copy has the checksum. -/
def copyRound (chip : Chip) (s : Loader) (writtenBytes : ℕ) : Option Loader :=
  (s.programmer.copyFirmware chip).map fun programmer =>
    if s.updater.sourceCrc =
        Math.calculateCRC (programmer.rom.cells.read HAL_ROM.ADDR_APPLICATION writtenBytes) then
      let copied := .copied writtenBytes s.updater.sourceCrc programmer.rom.cells
      { s with
        programmer := { programmer with
          rom := { programmer.rom with trace := programmer.rom.trace ++ [copied] } }
        updater := { s.updater with state := .COMPLETED }
        copying := none }
    else { s with programmer }

/-- What happens in a step. -/
inductive Op
  /-- A symbol in the receive interrupt. -/
  | receive (symbol : UInt8)
  /-- `Modem::Update`, without `InData::Update`. -/
  | modem (env : Modem.Env)
  /-- `InData::Update` hands an answer to `SIM868::Update`. -/
  | answer (now : UInt32) (answer : List UInt8)
  /-- A round of the copy loop. -/
  | copy

/-- The LOADER part of `Modem::CallbackOnReceive`.  Other symbols go to `InData`. -/
def receive (s : Loader) (symbol : UInt8) : Option (List Transmit × Loader) :=
  if s.inModeReceiveDataFromFTP then
    (s.reader.appendByte symbol).map fun (commands, reader) => (commands, { s with reader })
  else some ([], s)

/-- `Modem::Update`: in `IDLE` it resets `SIM868`. -/
def updateModem (s : Loader) (env : Modem.Env) : Loader :=
  let s' := { s with modem := (s.modem.update env).1 }
  match (s.modem.update env).2 with
  | .reset => s'.resetSIM868
  | .inDataUpdate | .nothing => s'

/-- A step and what it sends. -/
def step (chip : Chip) (s : Loader) : Op → Option (List Transmit × Loader)
  | .receive symbol => s.receive symbol
  | .modem env => if s.copying = none then some ([], s.updateModem env) else none
  | .answer now answer =>
      if s.copying = none ∧ s.modem.state = .HARDWARE_IS_OK then s.updateSIM868 chip now answer
      else none
  | .copy => s.copying.bind fun writtenBytes => (s.copyRound chip writtenBytes).map fun s => ([], s)

/-- The state behind a step. -/
def next (chip : Chip) (s : Loader) (op : Op) : Option Loader := (s.step chip op).map Prod.snd

end Loader

end USKD
