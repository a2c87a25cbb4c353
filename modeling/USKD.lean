import USKD.Lib.Run
import USKD.Lib.Feed
import USKD.Storage.Durability
import USKD.Modem.Framing
import USKD.Modem.Delivery
import USKD.Modem.Restored
import USKD.Loader.Bounds
import USKD.Loader.Reading
import USKD.Loader.Download
import USKD.Loader.Staging
import USKD.Modem.Transfer
import USKD.Modem.PowerSequence
import USKD.Modem.Tokens
import USKD.Lib.Mqtt5
import USKD.Modem.MQTT.RequestMQTT
import USKD.Modem.SIM868
import USKD.Lib.Heap
import USKD.Modem.MQTT.MQTT
import USKD.Device.Control
import USKD.Device.Session
import USKD.Device.Prompt
import USKD.Device.Silence
import USKD.Lib.Horner
import USKD.Utils.Burst
import USKD.Loader.Copy
import USKD.Loader.Header
import USKD.Loader.Cursors
import USKD.Modem.Blocks
import USKD.Modem.MQTT.Checked
import USKD.Modem.Fields
import USKD.Modem.MQTT.Suback
import USKD.Modem.MQTT.Terminator
import USKD.Modem.Terminated
import USKD.Modem.Lines
import USKD.Hardware.RTC
import USKD.Modem.MQTT.Retries
import USKD.Storage.Oldest
import USKD.Storage.Scan
import USKD.Storage.Erasure
import USKD.Storage.ReadBack
import USKD.Lib.KeySearch
import USKD.Modem.Positions
import USKD.Modem.Conditions
import USKD.Modem.Coordinates
import USKD.Hardware.PackedTime
import USKD.Display.Display
import USKD.Modem.Loops
import USKD.Loader.HandlerBIN
import USKD.Loader.Firmware
import USKD.Loader.Installing
import USKD.Device.Packets
import USKD.Device.Handshake
import USKD.Loader.Handshake
import USKD.Lib.Frames
import USKD.Modem.Segments
import USKD.Lib.Pulses
import USKD.Modules.DHT22
import USKD.Lib.Stages
import USKD.Modem.Deadline
import USKD.Loader.Deadline
import USKD.Device.Addressing
import USKD.Modem.MQTT.Deadline
import USKD.Modem.PowerDeadline
import USKD.Loader.PowerFailure
