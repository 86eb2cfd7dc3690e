import NginxEngine.Machine
import NginxEngine.XS.Event
import NginxEngine.XS.Buffer
import NginxEngine.XS.Connection
import NginxEngine.XS.Api
import NginxEngine.XS.Run
import NginxEngine.XS.Segments
import NginxEngine.XS.Wakeup
import NginxEngine.XS.TimerDiscipline
import NginxEngine.XS.Released
import NginxEngine.XS.FreshLoad
import NginxEngine.XS.HalfDuplex
import NginxEngine.Pool
import NginxEngine.XS.Process
import NginxEngine.XS.SlotOwner
import NginxEngine.XS.TimerSlots
import NginxEngine.PP.Connection
import NginxEngine.PP.Run
import NginxEngine.Chunks
import NginxEngine.PP.InOrder
import NginxEngine.PP.Segments
import NginxEngine.PP.SentOnce
import NginxEngine.PP.Switch
import NginxEngine.PP.Process
import NginxEngine.PP.SelectSets
import NginxEngine.PP.Projection
import NginxEngine.PP.Watched
import NginxEngine.PP.Closed
import NginxEngine.PP.Timers
import NginxEngine.XS.Callback
import NginxEngine.XS.Create
import NginxEngine.Pipe
import NginxEngine.XS.Echo
import NginxEngine.PP.Echo
import NginxEngine.XS.Transfer
import NginxEngine.XS.Transmit
import NginxEngine.XS.Stream
import NginxEngine.XS.Completion
import NginxEngine.XS.Intake
import NginxEngine.XS.Registered
import NginxEngine.XS.Connect
import NginxEngine.PP.Transmit
import NginxEngine.PP.Delivery
import NginxEngine.PP.Roster
import NginxEngine.PP.Delays
import NginxEngine.PP.Events
import NginxEngine.PP.MinLen
import NginxEngine.PP.Units
import NginxEngine.PP.Frames
import NginxEngine.PP.Client
import NginxEngine.PP.Idle
import NginxEngine.PP.Timeouts
import NginxEngine.PP.XBufs
import NginxEngine.Core.EventTimer
import NginxEngine.Core.RbtreeRuns
import NginxEngine.Core.TimerRuns
import NginxEngine.BackList
import NginxEngine.Core.EventPosted
import NginxEngine.Core.Palloc
import NginxEngine.Core.PallocRuns
import NginxEngine.Core.EventLoop
import NginxEngine.Core.EventLoopRuns
import NginxEngine.Views
import NginxEngine.PP.Resend
