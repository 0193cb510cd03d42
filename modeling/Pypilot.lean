import Pypilot.Lib.Loop
import Pypilot.Lib.ExtRat
import Pypilot.Lib.Text
import Pypilot.Lib.Lines
import Pypilot.Lib.Decimal
import Pypilot.Lib.Strtof
import Pypilot.Lib.SlotTable
import Pypilot.Lib.Run
import Pypilot.DataModel
import Pypilot.Values
import Pypilot.Server
import Pypilot.Emission
import Pypilot.NumberBuffer
import Pypilot.Effects
import Pypilot.Ranges
import Pypilot.IterationEnds
import Pypilot.Disengage
import Pypilot.Lib.Escape
import Pypilot.StringSetting
import Pypilot.RecordBuffers
import Pypilot.Coherence
import Pypilot.ServoProtocol
import Pypilot.Servo
import Pypilot.Nmea
import Pypilot.Autopilot
import Pypilot.ProtocolReader
import Pypilot.ReaderLines
import Pypilot.PacketBoundaries
import Pypilot.EventLoop
import Pypilot.Client
import Pypilot.Outbox
import Pypilot.SendOrder
import Pypilot.WireFraming
import Pypilot.Lib.Reentrant
import Pypilot.ControlState
import Pypilot.DriverStream
import Pypilot.Telemetry
import Pypilot.Lib.Courier
import Pypilot.Lib.Crc
import Pypilot.FrameCheck
import Pypilot.DriverFrames
import Pypilot.Steering
import Pypilot.Angles
import Pypilot.Conversions
import Pypilot.ConversionRuns
import Pypilot.LoopRuns
import Pypilot.SyslibLoop
import Pypilot.LoopAgreement
import Pypilot.Conservation
import Pypilot.NmeaChecksum
import Pypilot.NmeaRender
import Pypilot.NmeaGroups
import Pypilot.WatchTable
import Pypilot.Lib.Numeral
import Pypilot.Lib.Literal
import Pypilot.WatchLines
import Pypilot.Reconnect
import Pypilot.RegistryRuns
import Pypilot.RegistryFields
import Pypilot.RegistryTable
import Pypilot.RejectedRequests
import Pypilot.NumericTexts
import Pypilot.RealSetting
import Pypilot.WantedWatches
import Pypilot.RepeatingTimers
import Pypilot.Registrations
import Pypilot.RudderSamples
import Pypilot.RudderCalibration
import Pypilot.PeriodicWatch
import Pypilot.ChangedWatch
import Pypilot.ServedWatch
import Pypilot.WatchRequests
import Pypilot.Sessions
import Pypilot.ClientCopy
import Pypilot.Mirror
import Pypilot.Link
import Pypilot.WantedFields
import Pypilot.FollowedFields
import Pypilot.LinkAgreement
import Pypilot.Resynchronisation
import Pypilot.LoopPasses
import Pypilot.SettingWrites
import Pypilot.Deliveries
import Pypilot.Helm
import Pypilot.Instruments
import Pypilot.ReaderReport
import Pypilot.Subscriptions
import Pypilot.ServedSubscriptions
