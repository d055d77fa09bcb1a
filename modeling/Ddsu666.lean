import Ddsu666.Runs
import Ddsu666.CheckedBuffer
import Ddsu666.RegisterBus
import Ddsu666.ShiftRegister
import Ddsu666.DecimalText
import Ddsu666.JsonText
import Ddsu666.ModbusCrc
import Ddsu666.CrcLengths
import Ddsu666.RegisterPolynomial
import Ddsu666.CrcRemainder
import Ddsu666.Binary32
import Ddsu666.IeeeSingle
import Ddsu666.MeterFloat
import Ddsu666.FloatClasses
import Ddsu666.FloatRounding
import Ddsu666.MeterReplies
import Ddsu666.ReplyRuns
import Ddsu666.PollLoop
import Ddsu666.PollPeriod
import Ddsu666.WatchdogFeeds
import Ddsu666.UartSend
import Ddsu666.ReceiveBuffers
import Ddsu666.MeterBus
import Ddsu666.LineNoise
import Ddsu666.UartTask
import Ddsu666.ClearRequests
import Ddsu666.TaskStop
import Ddsu666.RateChanges
import Ddsu666.CounterAccesses
import Ddsu666.StringHeap
import Ddsu666.WebHandler
import Ddsu666.Uptime
import Ddsu666.SnapshotReads
import Ddsu666.SnapshotOrigins
import Ddsu666.MqttHandler
import Ddsu666.CommandDispatch
import Ddsu666.StringLifetimes
import Ddsu666.MessageRuns
import Ddsu666.ClientEvents
import Ddsu666.ResponseSize
import Ddsu666.ResponseText
import Ddsu666.PublishedReadings
import Ddsu666.AnswerReadBack
import Ddsu666.EnergyClears
import Ddsu666.RateBudget
import Ddsu666.PowerAnswers
import Ddsu666.StringAccesses
import Ddsu666.AllocationFailures
import Ddsu666.ImageHash
import Ddsu666.BootOta
import Ddsu666.BootModes
import Ddsu666.OtaTag
import Ddsu666.DeadStates
import Ddsu666.WifiCredentials
import Ddsu666.WifiLifecycle
import Ddsu666.WifiRetries
import Ddsu666.SubstringSearch
import Ddsu666.FormParser
import Ddsu666.FormEncoding
import Ddsu666.StagedEmission
import Ddsu666.NecEncoder
import Ddsu666.NecDecoder
import Ddsu666.NecHistory
import Ddsu666.NecSessions
import Ddsu666.NecReceive
import Ddsu666.NecLink
import Ddsu666.NecResources
