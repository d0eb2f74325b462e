import BlackSiren.LFQueue.Fifo
import BlackSiren.LFQueue.Order
import BlackSiren.LFQueue.Overflow
import BlackSiren.LFQueue.Linear
import BlackSiren.LFQueue.Spsc
import BlackSiren.Channel.Delivery
import BlackSiren.Channel.Closed
import BlackSiren.Channel.VTWordCodec
import BlackSiren.Legacy.CodOutput
import BlackSiren.Processor.EncoderPause
import BlackSiren.Processor.Messages
import BlackSiren.Processor.VadData
import BlackSiren.VTWord.Sync
import BlackSiren.Recording.Stream
import BlackSiren.Recording.Alternation
import BlackSiren.Recording.Destroy
import BlackSiren.Service.Init
import BlackSiren.Service.StateChange
import BlackSiren.Service.StateCallback
import BlackSiren.Service.OnDestroy
import BlackSiren.Service.ProcCallback
import BlackSiren.Service.VoiceEvent
import BlackSiren.Framework.Objects
import BlackSiren.Legacy.BfReset
import BlackSiren.Legacy.CodCalls
import BlackSiren.Legacy.CodReset
import BlackSiren.Legacy.Reset
import BlackSiren.Legacy.Vad2Segments
import BlackSiren.Processor.ForceStart
import BlackSiren.Processor.InitBounds
import BlackSiren.Config.ParseConfigFile
import BlackSiren.Preprocessor.Init
import BlackSiren.Preprocessor.FrameSize
import BlackSiren.Processor.MicCheck
import BlackSiren.Legacy.CodRecords
import BlackSiren.Legacy.BuffStream
import BlackSiren.Legacy.AudBuff
import BlackSiren.Legacy.Packages
import BlackSiren.Neo.SirenMic
import BlackSiren.VTWord.Pinyin
import BlackSiren.Channel.VTWordSafety
import BlackSiren.VTWord.FieldSizes
import BlackSiren.Framework.Frames
import BlackSiren.Framework.Shift
import BlackSiren.Legacy.RdcAlign
import BlackSiren.Legacy.AecFrames
import BlackSiren.Framework.Keyed
import BlackSiren.Framework.PowersOfTwo
import BlackSiren.Framework.Scan
import BlackSiren.Framework.Sessions
import BlackSiren.Framework.Variance
import BlackSiren.LFQueue.Construct
import BlackSiren.LFQueue.Ints
import BlackSiren.LFQueue.Reset
import BlackSiren.LFQueue.Overrun
import BlackSiren.LFQueue.Timeout
import BlackSiren.LFQueue.Progress
import BlackSiren.LFQueue.FutexInts
import BlackSiren.Legacy.Detection
import BlackSiren.Neo.MicStatus
import BlackSiren.Net.Monitor
import BlackSiren.Processor.Detection
import BlackSiren.VTWord.Calls
import BlackSiren.VTWord.LoadPhoneme
import BlackSiren.Processor.Order
import BlackSiren.Processor.Limit
import BlackSiren.Framework.Observer
import BlackSiren.Service.ProcessThread
import BlackSiren.Service.Listening
import BlackSiren.Service.WakeWords
import BlackSiren.Service.Client
import BlackSiren.Service.Shutdown
import BlackSiren.Service.Refinement
import BlackSiren.Service.Requests
import BlackSiren.Service.Callbacks
import BlackSiren.Service.Answers
import BlackSiren.Config.RoundTrip
import BlackSiren.VTWord.Repeat
